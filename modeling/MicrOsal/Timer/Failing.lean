import MicrOsal.GatedTimer.Failing
import MicrOsal.ThreadxTimer.Failing

/-!
# MicrOsal.Timer.Failing

A call that fails, in the backends that make an operation on a timer out of several native
calls. The calls that put a timer back are missing in all of them, so that a timer that was
running is left stopped by the resets and changes of the period that stop it and fail.
-/

namespace MicrOsal.Timer

/-- The calls that leave the timer as it was whenever they fail. -/
theorem timers_failSafely {b : GatedTimer.Backend} {period : Nat} {autoReload : Bool}
    {s : GatedTimer.State} (h : (GatedTimer.machine b period autoReload).Reachable s)
    (op : GatedTimer.Op) (fails : GatedTimer.Failures) (l : ThreadxTimer.Limits) (now : Nat)
    (t : ThreadxTimer.Timer) (threadxOp : ThreadxTimer.Op)
    (threadxFails : ThreadxTimer.Failures) :
    (GatedTimer.FailsSafely b s op fails ↔ ¬ GatedTimer.ResetsRunning s op) ∧
      (t.FailsSafely l now threadxOp threadxFails ↔
        ¬ t.StopsAndFails l threadxFails threadxOp) :=
  ⟨GatedTimer.failsSafely_iff (.of_reachable h) op fails,
    ThreadxTimer.Timer.failsSafely_iff threadxOp⟩

/-- A periodic timer that a thread has started. -/
def startedTimer : List GatedTimer.Action :=
  [.spawn, .start 0, .go 0 false, .go 0 false]

/-- A change of the period is refused while a timer runs, and leaves it running; on ThreadX it
stops the timer first, and does not put it back when `tx_timer_change` fails. -/
theorem timers_failSafely_setPeriod : ∃ s,
    (GatedTimer.machine (GatedTimer.chibios 255 254) 2 true).Reachable s ∧
      (s.exec (GatedTimer.chibios 255 254) ⟨false, false⟩ (.setPeriod 9)).1 = .notSupported ∧
      GatedTimer.FailsSafely (GatedTimer.chibios 255 254) s (.setPeriod 9) ⟨false, false⟩ ∧
      ¬ ((ThreadxTimer.Timer.create 2 true).start 0 ⟨false, false, false, false⟩).2.FailsSafely
        ⟨255, 254⟩ 1 (.setPeriod 9) ⟨false, false, true, false⟩ := by
  have hrun : ((GatedTimer.machine (GatedTimer.chibios 255 254) 2 true).run
      (GatedTimer.machine (GatedTimer.chibios 255 254) 2 true).init startedTimer).map
      (fun s => (s.exec (GatedTimer.chibios 255 254) ⟨false, false⟩ (.setPeriod 9)).1) =
      some .notSupported := by decide +kernel
  obtain ⟨s, hs, hcode⟩ := Option.map_eq_some_iff.mp hrun
  have hsafe := timers_failSafely (.of_run hs) (.setPeriod 9) ⟨false, false⟩ ⟨255, 254⟩ 1
    ((ThreadxTimer.Timer.create 2 true).start 0 ⟨false, false, false, false⟩).2 (.setPeriod 9)
    ⟨false, false, true, false⟩
  refine ⟨s, .of_run hs, hcode, hsafe.1.mpr (fun hresets => nomatch hresets.1), ?_⟩
  exact fun h => hsafe.2.mp h ⟨rfl, rfl, rfl, rfl, .inl rfl⟩

theorem not_failsSafely {b : GatedTimer.Backend} (hb : b ∈ [GatedTimer.chibios 255 254,
    GatedTimer.nuttx 255 254, GatedTimer.embos 255 254]) :
    ¬ ∀ s, (GatedTimer.machine b 2 true).Reachable s → ∀ op fails,
      GatedTimer.FailsSafely b s op fails := by
  intro hall
  have hrun : ∀ b ∈ [GatedTimer.chibios 255 254, GatedTimer.nuttx 255 254,
      GatedTimer.embos 255 254],
      ((GatedTimer.machine b 2 true).run (GatedTimer.machine b 2 true).init startedTimer).map
        (fun s => ((s.exec b ⟨false, false⟩ .reset).1,
          (s.exec b ⟨false, false⟩ .reset).2.willFire, s.willFire)) =
        some (.notSupported, false, true) := by decide +kernel
  obtain ⟨s, hs, hfields⟩ := Option.map_eq_some_iff.mp (hrun b hb)
  obtain ⟨hcode, hfires⟩ := Prod.mk.inj hfields
  obtain ⟨hafter, hbefore⟩ := Prod.mk.inj hfires
  have hsame := hall s (.of_run hs) .reset ⟨false, false⟩ (by rw [hcode]; nofun)
  exact nomatch hafter.symm.trans ((congrArg GatedTimer.Observed.fires hsame).trans hbefore)

/-- A reset of a running timer stops it, and its start is refused: the timer has been started
before. -/
theorem timers_resetStops :
    (¬ ∀ s, (GatedTimer.machine (GatedTimer.chibios 255 254) 2 true).Reachable s → ∀ op fails,
      GatedTimer.FailsSafely (GatedTimer.chibios 255 254) s op fails) ∧
    (¬ ∀ s, (GatedTimer.machine (GatedTimer.nuttx 255 254) 2 true).Reachable s → ∀ op fails,
      GatedTimer.FailsSafely (GatedTimer.nuttx 255 254) s op fails) ∧
    ¬ ∀ s, (GatedTimer.machine (GatedTimer.embos 255 254) 2 true).Reachable s → ∀ op fails,
      GatedTimer.FailsSafely (GatedTimer.embos 255 254) s op fails :=
  ⟨not_failsSafely (by simp), not_failsSafely (by simp), not_failsSafely (by simp)⟩

end MicrOsal.Timer
