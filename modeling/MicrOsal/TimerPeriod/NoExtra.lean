import MicrOsal.TimerPeriod.FreertosOnce
import MicrOsal.TimerPeriod.LinuxOnce
import MicrOsal.TimerPeriod.ThreadxOnce

/-!
# MicrOsal.TimerPeriod.NoExtra

A change of the period adds no expiry, on Linux, FreeRTOS and ThreadX, unless a one-shot timer
expires between the look at it and the call that sets it again. All three start it again then.
-/

namespace MicrOsal.TimerPeriod

variable {period : Nat} {autoReload : Bool}

theorem setPeriod_noExtra (hperiod : 0 < period) :
    (∀ s, (Linux.machine period autoReload).ReachableBy Linux.Keeps s →
      NoExtra autoReload s.view) ∧
    (∀ s, (Freertos.machine period autoReload).ReachableBy Freertos.Keeps s →
      NoExtra autoReload s.view) ∧
    ∀ l s, (Threadx.machine l period autoReload).ReachableBy Threadx.Keeps s →
      NoExtra autoReload s.view :=
  ⟨fun _ h => Linux.noExtra hperiod h, fun _ h => Freertos.noExtra h,
    fun _ _ h => Threadx.noExtra hperiod h⟩

/-! ### Runs of one-shot timers

In the first of each the period is changed while the timer runs; in the second the timer
expires, and calls back, within the call. -/

namespace Linux

def oneExpiry : List Action :=
  [.start, .go false, .go false, .setPeriod 3, .go false, .go false, .tick, .tick, .tick, .expire,
    .watch, .watch, .watch]

def twoExpiries : List Action :=
  [.start, .go false, .go false, .setPeriod 3, .go false, .tick, .tick, .expire, .watch, .watch,
    .watch, .go false, .tick, .tick, .tick, .expire, .watch, .watch, .watch]

end Linux

namespace Freertos

def oneExpiry : List Action :=
  [.start, .go false, .command, .setPeriod 3 false, .go false, .command, .go false, .go false,
    .go false, .command, .tick, .tick, .tick, .expire, .callback]

def twoExpiries : List Action :=
  [.start, .go false, .command, .setPeriod 3 false, .go false, .command, .go false, .go false,
    .tick, .tick, .expire, .callback, .go false, .command, .tick, .tick, .tick, .expire, .callback]

end Freertos

namespace Threadx

def oneExpiry : List Action :=
  [.start, .go false, .go false, .go false, .setPeriod 3, .go false, .go false, .go false,
    .go false, .tick, .tick, .tick, .expire, .callback]

def twoExpiries : List Action :=
  [.start, .go false, .go false, .go false, .setPeriod 3, .go false, .tick, .tick, .expire,
    .callback, .go false, .go false, .go false, .tick, .tick, .tick, .expire, .callback]

end Threadx

theorem setPeriod_noExtra_oneExpiry :
    (∃ s, (Linux.machine 2 false).ReachableBy Linux.Keeps s ∧ s.account.callbacks = 1 ∧
      NoExtra false s.view) ∧
    (∃ s, (Freertos.machine 2 false).ReachableBy Freertos.Keeps s ∧ s.account.callbacks = 1 ∧
      NoExtra false s.view) ∧
    ∃ s, (Threadx.machine ⟨255, 254⟩ 2 false).ReachableBy Threadx.Keeps s ∧
      s.account.callbacks = 1 ∧ NoExtra false s.view := by
  have hall := @setPeriod_noExtra 2 false (by decide)
  have hlinux : ((Linux.machine 2 false).run (Linux.machine 2 false).init Linux.oneExpiry).map
      (fun s => s.account.callbacks) = some 1 := by decide +kernel
  have hfreertos : ((Freertos.machine 2 false).run (Freertos.machine 2 false).init
      Freertos.oneExpiry).map (fun s => s.account.callbacks) = some 1 := by decide +kernel
  have hthreadx : ((Threadx.machine ⟨255, 254⟩ 2 false).run
      (Threadx.machine ⟨255, 254⟩ 2 false).init Threadx.oneExpiry).map
      (fun s => s.account.callbacks) = some 1 := by decide +kernel
  obtain ⟨s, hs, hs1⟩ := Option.map_eq_some_iff.mp hlinux
  obtain ⟨t, ht, ht1⟩ := Option.map_eq_some_iff.mp hfreertos
  obtain ⟨u, hu, hu1⟩ := Option.map_eq_some_iff.mp hthreadx
  have hs' : (Linux.machine 2 false).ReachableBy Linux.Keeps s :=
    .of_run .init (by decide +kernel) hs
  have ht' : (Freertos.machine 2 false).ReachableBy Freertos.Keeps t :=
    .of_run .init (by decide +kernel) ht
  have hu' : (Threadx.machine ⟨255, 254⟩ 2 false).ReachableBy Threadx.Keeps u :=
    .of_run .init (by decide +kernel) hu
  exact ⟨⟨s, hs', hs1, hall.1 s hs'⟩, ⟨t, ht', ht1, hall.2.1 t ht'⟩,
    ⟨u, hu', hu1, hall.2.2 _ u hu'⟩⟩

/-- One start, and two callbacks. -/
theorem setPeriod_addsExpiry :
    ¬ (∀ s, (Linux.machine 2 false).Reachable s → NoExtra false s.view) ∧
    ¬ (∀ s, (Freertos.machine 2 false).Reachable s → NoExtra false s.view) ∧
    ¬ ∀ s, (Threadx.machine ⟨255, 254⟩ 2 false).Reachable s → NoExtra false s.view := by
  have hlinux : ((Linux.machine 2 false).run (Linux.machine 2 false).init Linux.twoExpiries).map
      (fun s => (s.account.callbacks, s.account.starts)) = some (2, 1) := by decide +kernel
  have hfreertos : ((Freertos.machine 2 false).run (Freertos.machine 2 false).init
      Freertos.twoExpiries).map (fun s => (s.account.callbacks, s.account.starts)) =
      some (2, 1) := by decide +kernel
  have hthreadx : ((Threadx.machine ⟨255, 254⟩ 2 false).run
      (Threadx.machine ⟨255, 254⟩ 2 false).init Threadx.twoExpiries).map
      (fun s => (s.account.callbacks, s.account.starts)) = some (2, 1) := by decide +kernel
  have hextra : ∀ v : View, (v.account.callbacks, v.account.starts) = (2, 1) →
      ¬ NoExtra false v := by
    intro v hv hno
    obtain ⟨hcallbacks, hstarts⟩ := Prod.mk.inj hv
    have honce := hno.once rfl
    rw [hcallbacks, hstarts] at honce
    exact absurd honce (by decide)
  obtain ⟨s, hs, hs2⟩ := Option.map_eq_some_iff.mp hlinux
  obtain ⟨t, ht, ht2⟩ := Option.map_eq_some_iff.mp hfreertos
  obtain ⟨u, hu, hu2⟩ := Option.map_eq_some_iff.mp hthreadx
  exact ⟨fun h => hextra _ hs2 (h s (.of_run hs)), fun h => hextra _ ht2 (h t (.of_run ht)),
    fun h => hextra _ hu2 (h u (.of_run hu))⟩

end MicrOsal.TimerPeriod
