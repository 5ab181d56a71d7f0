import MicrOsal.WorkQueue.Pair

/-!
# MicrOsal.WorkQueue.Equivalence

What a caller sees of the emulated and of the pthread work queue.

A flush of the pthread queue occupies a cell of the ring until the worker has come to
its sentinel, so the two queues part when the ring is full: the flush is refused, or a
submit that the emulated queue accepts. They also part when `cancel_all` removes a
sentinel: the emulated flush ends with any younger item, the other one with the next
flush. And until the worker has come to it, also when it has nothing else to do, the
pthread flush still waits when the emulated one ends. Everything else is the same, and
`pending` differs by the sentinels.

A sentinel is stamped with the target of the emulated flush, which is the stamp of the
item before it: the worker finds the sentinel at the front exactly when the emulated queue
reaches the target.
-/

namespace MicrOsal

/-! ### The simulation -/

/-- The item as the emulated queue has it. -/
def PwqEntry.toEmu (x : PwqEntry) : WqEntry := ⟨x.toWorkItem, x.stamp⟩

/-- The item in execution is the active one of the emulated queue. -/
def EmuWq.ActiveIs (wq : EmuWq) : Option WqEntry → Prop
  | none => wq.workerActive = false
  | some entry => wq.workerActive = true ∧ wq.activeSequence = entry.sequence

theorem EmuWq.ActiveIs.congr {wq wq' : EmuWq} {entry : Option WqEntry} (h : wq.ActiveIs entry)
    (hactive : wq'.workerActive = wq.workerActive)
    (hsequence : wq'.activeSequence = wq.activeSequence) : wq'.ActiveIs entry := by
  cases entry with
  | none => exact hactive.trans h
  | some entry => exact ⟨hactive.trans h.1, hsequence.trans h.2⟩

/-- What stands for all that has been executed, at the head of the line. -/
def WqPair.base (s : WqPair) : PwqEntry := ⟨⟨0, 0⟩, s.emu.completedSequence⟩

/-- The tickets that are still to be completed. -/
def WqPair.tickets (s : WqPair) : List Nat :=
  s.posixWorker.held.toList ++
    (s.posix.ring.contents.filter (fun x => !x.isWork)).map (·.arg)

/-- A flush has ended in both queues, or the emulated one only while the worker has its sentinel,
or that is still in the ring. -/
def FlushPair.Tracked (s : WqPair) (f : FlushPair) : Prop :=
  ∃ ticket, f.ticket = some ticket ∧
    ((ticket ≤ s.posix.completedFlushTicket ∧ f.target ≤ s.emu.completedSequence) ∨
      (s.posixWorker.held = some ticket ∧ f.target ≤ s.emu.completedSequence) ∨
      ∃ x ∈ s.posix.ring.contents, x.isWork = false ∧ x.arg = ticket ∧ x.stamp = f.target)

/-- The relation between the two queues. -/
structure WqPair.Related (s : WqPair) : Prop where
  emuRing : s.emu.ring.Ok
  posixRing : s.posix.ring.Ok
  capacity : s.posix.ring.capacity = s.emu.ring.capacity
  tokens : s.emu.notEmpty = s.emu.ring.count
  queued : (s.posix.ring.contents.filter PwqEntry.isWork).map PwqEntry.toEmu =
    s.emu.ring.contents
  alive : s.posixWorker ≠ .exited
  item : ∀ x ∈ s.posixWorker.running, x.isWork = true
  running : s.posixWorker.running.map PwqEntry.toEmu = s.emuRunning
  executed : s.posixExecuted = s.emuExecuted
  chain : (s.base :: s.line).IsChain PwqEntry.Follows
  active : s.emu.ActiveIs s.emuRunning
  stamps : ∀ x ∈ s.base :: s.line, x.stamp ≤ s.emu.submittedSequence
  ordered : (s.posix.completedFlushTicket :: s.tickets).Pairwise (· < ·)
  drawn : ∀ ticket ∈ s.posix.completedFlushTicket :: s.tickets, ticket ≤ s.posix.nextFlushTicket
  flushes : ∀ f ∈ s.flushes, f.cancelled = false → f.ticket ≠ none → f.Tracked s

namespace WqPair

theorem related_create {depth : Nat} (h : 0 < depth) : (create depth).Related where
  emuRing := Ring.create_ok h _
  posixRing := Ring.create_ok h _
  capacity := rfl
  tokens := rfl
  queued := rfl
  alive := nofun
  item := nofun
  running := rfl
  executed := rfl
  chain := .singleton _
  active := rfl
  stamps := fun x hx => by rw [List.mem_singleton.mp hx]; exact le_rfl
  ordered := List.pairwise_singleton _ _
  drawn := fun x hx => by rw [List.mem_singleton.mp hx]; exact le_rfl
  flushes := nofun

variable {s : WqPair}

theorem Related.idle_iff (h : s.Related) :
    s.posixWorker.running = none ↔ s.emuRunning = none := by
  rw [← h.running, Option.map_eq_none_iff]

/-- Between two items the worker waits, or has a sentinel. -/
theorem Related.wait_iff (h : s.Related) :
    s.posixWorker = .wait ↔ s.posixWorker.held = none ∧ s.emuRunning = none := by
  have halive := h.alive
  rw [← h.idle_iff]
  cases hworker : s.posixWorker with
  | wait => exact iff_of_true rfl ⟨rfl, rfl⟩
  | run entry => exact iff_of_false nofun nofun
  | sentinel ticket => exact iff_of_false nofun nofun
  | exited => exact absurd hworker halive

/-- The pthread ring holds the items of the emulated ring, and the sentinels. -/
theorem Related.count (h : s.Related) : s.posix.ring.count = s.emu.ring.count + s.sentinels := by
  rw [← Ring.length_contents, ← Ring.length_contents, ← h.queued, List.length_map,
    ← List.countP_eq_length_filter, sentinels, List.length_eq_countP_add_countP PwqEntry.isWork]
  congr 2
  funext x
  simp

/-- A worker that has no sentinel to take finds an item first. -/
theorem Related.stamp_gt (h : s.Related) (hsettled : s.Settled) {x : PwqEntry}
    (hx : x ∈ s.line) : s.emu.completedSequence < x.stamp := by
  have hchain := h.chain
  have hwork : ∀ w ∈ s.line.head?, w.isWork = true := by
    intro w hw
    cases hrun : s.posixWorker.running with
    | some entry =>
        rw [line, hrun] at hw
        cases hw
        exact h.item _ hrun
    | none =>
        have hwait := h.wait_iff.mpr ⟨hsettled.1, h.idle_iff.mp hrun⟩
        rw [line, hrun] at hw
        rcases hsettled.2 hwait with hempty | hfront
        · rw [Ring.contents_eq_nil_iff.mpr hempty] at hw
          cases hw
        · by_cases hempty : s.posix.ring.count = 0
          · rw [Ring.contents_eq_nil_iff.mpr hempty] at hw
            cases hw
          · rw [h.posixRing.contents_pop hempty] at hw
            cases hw
            exact hfront
  cases hline : s.line with
  | nil =>
      rw [hline] at hx
      cases hx
  | cons w rest =>
      rw [hline] at hx hchain hwork
      obtain ⟨hfirst, hrest⟩ := List.isChain_cons_cons.mp hchain
      rw [PwqEntry.Follows, if_pos (hwork w rfl)] at hfirst
      exact Nat.lt_of_lt_of_le hfirst (stamp_le_of_chain hrest hx)

/-- The tickets that are still to be completed have not been. -/
theorem Related.completed_lt (h : s.Related) {ticket : Nat} (hticket : ticket ∈ s.tickets) :
    s.posix.completedFlushTicket < ticket :=
  (List.pairwise_cons.mp h.ordered).1 ticket hticket

theorem mem_tickets {x : PwqEntry} (hx : x ∈ s.posix.ring.contents) (hsent : x.isWork = false) :
    x.arg ∈ s.tickets :=
  List.mem_append_right _
    (List.mem_map_of_mem (List.mem_filter.mpr ⟨hx, by rw [hsent]; rfl⟩))

/-- Both queues return the same from a flush, whenever it has to return, when the worker has no
sentinel to take. -/
theorem Related.flush_result (h : s.Related) {f : FlushPair} (hf : f ∈ s.flushes)
    (hlive : f.cancelled = false) (hsome : f.ticket ≠ none) (hsettled : s.Settled) :
    f.posixResult s.posix = f.emuResult s.emu := by
  obtain ⟨ticket, hticket, hcase⟩ := h.flushes f hf hlive hsome
  simp only [FlushPair.posixResult, FlushPair.emuResult, hticket]
  rcases hcase with ⟨hdone, htarget⟩ | ⟨hheld, -⟩ | ⟨x, hx, hsent, harg, hstamp⟩
  · rw [if_neg (Nat.not_lt.mpr hdone), if_pos htarget]
  · cases hsettled.1.symm.trans hheld
  · have hgt := h.stamp_gt hsettled (List.mem_append_right _ hx)
    have hlt := h.completed_lt (mem_tickets hx hsent)
    rw [harg] at hlt
    rw [hstamp] at hgt
    rw [if_pos hlt, if_neg (Nat.not_le.mpr hgt)]

/-- The pthread flush is never the first to end. -/
theorem Related.flush_later (h : s.Related) {f : FlushPair} (hf : f ∈ s.flushes)
    (hlive : f.cancelled = false) (hok : f.posixResult s.posix = .ok) :
    f.emuResult s.emu = .ok := by
  have hsome : f.ticket ≠ none := by
    intro hnone
    rw [FlushPair.posixResult, hnone] at hok
    cases hok
  obtain ⟨ticket, hticket, hcase⟩ := h.flushes f hf hlive hsome
  have hover : ¬ s.posix.completedFlushTicket < ticket := by
    intro hlt
    simp only [FlushPair.posixResult, hticket, if_pos hlt] at hok
    cases hok
  rcases hcase with ⟨-, htarget⟩ | ⟨-, htarget⟩ | ⟨x, hx, hsent, rfl, -⟩
  · exact if_pos htarget
  · exact if_pos htarget
  · exact absurd (h.completed_lt (mem_tickets hx hsent)) hover

/-- A submit is refused by both queues with the same result, or accepted by both. -/
theorem Related.submit_cases (h : s.Related) {func arg : Nat}
    (hroom : s.HasRoom (.submit func arg)) :
    ((s.posix.submit func arg s.number).1 = (s.emu.submit func arg).1 ∧
        s.step (.submit func arg) = s) ∨
      (func ≠ 0 ∧ s.emu.ring.count < s.emu.ring.capacity ∧
        s.posix.ring.count < s.posix.ring.capacity ∧
        s.emu.submit func arg = (.ok, { s.emu with
          submittedSequence := s.number
          ring := s.emu.ring.push ⟨⟨func, arg⟩, s.number⟩
          notEmpty := s.emu.notEmpty + 1 }) ∧
        s.posix.submit func arg s.number =
          (.ok, { s.posix with ring := s.posix.ring.push ⟨⟨func, arg⟩, s.number⟩ })) := by
  have hcount := h.count
  have hcap := h.capacity
  by_cases hfunc : func = 0
  · left
    simp [step, EmuWq.submit, PosixWq.submit, hfunc]
  by_cases hfull : s.emu.ring.count ≥ s.emu.ring.capacity
  · have hfull' : s.posix.ring.count ≥ s.posix.ring.capacity := by omega
    left
    simp [step, EmuWq.submit, PosixWq.submit, hfunc, hfull, hfull']
  · have hlt := Nat.not_le.mp hfull
    have hlt' := hroom hlt
    refine .inr ⟨hfunc, hlt, hlt', ?_, ?_⟩
    · have htokens := h.tokens
      rw [EmuWq.submit, if_neg hfunc, if_neg hfull, EmuWq.enqueue_eq h.emuRing, EmuWq.give]
      rw [if_pos (by simp only [EmuWq.maxTokens, Ring.push]; omega)]
      rfl
    · rw [PosixWq.submit, if_neg hfunc, if_neg (Nat.not_le.mpr hlt')]

theorem Related.submit (h : s.Related) {func arg : Nat} (hroom : s.HasRoom (.submit func arg)) :
    (s.step (.submit func arg)).Related := by
  rcases h.submit_cases hroom with ⟨-, heq⟩ | ⟨hfunc, hlt, hlt', hemu, hposix⟩
  · rw [heq]
    exact h
  · have hcontents := h.emuRing.contents_push hlt ⟨⟨func, arg⟩, s.number⟩
    have hcontents' := h.posixRing.contents_push hlt' ⟨⟨func, arg⟩, s.number⟩
    have hwork : PwqEntry.isWork ⟨⟨func, arg⟩, s.number⟩ = true := by simp [PwqEntry.isWork, hfunc]
    have hline : (s.step (.submit func arg)).line = s.line ++ [⟨⟨func, arg⟩, s.number⟩] := by
      simp only [step, hposix, line, hcontents', List.append_assoc]
    have hbase : (s.step (.submit func arg)).base = s.base := by simp only [step, hemu, base]
    have htickets : (s.step (.submit func arg)).tickets = s.tickets := by
      simp [step, hposix, tickets, hcontents', hwork]
    have hnumber : s.number = s.emu.submittedSequence + 1 := rfl
    constructor
    case emuRing => simpa only [step, hemu] using h.emuRing.push hlt _
    case posixRing => simpa only [step, hposix] using h.posixRing.push hlt' _
    case capacity => simpa only [step, hemu, hposix, Ring.push] using h.capacity
    case tokens => simp only [step, hemu, Ring.push, h.tokens]
    case queued =>
      simp only [step, hemu, hposix, hcontents, hcontents', List.filter_append, List.map_append,
        h.queued, List.filter_cons, hwork, if_true, List.filter_nil]
      rfl
    case alive => exact h.alive
    case item => exact h.item
    case running => exact h.running
    case executed => exact h.executed
    case chain =>
      rw [hline, hbase, ← List.cons_append]
      refine List.isChain_append.mpr ⟨h.chain, .singleton _, ?_⟩
      intro x hx y hy
      cases hy
      have hle := h.stamps x (List.mem_of_getLast? hx)
      rw [PwqEntry.Follows, if_pos hwork]
      simp only [hnumber]
      omega
    case active =>
      simp only [step, hemu]
      exact h.active.congr rfl rfl
    case stamps =>
      intro x hx
      rw [hline, hbase, ← List.cons_append] at hx
      simp only [step, hemu, hnumber]
      rcases List.mem_append.mp hx with hx | hx
      · exact Nat.le_succ_of_le (h.stamps x hx)
      · rw [List.mem_singleton.mp hx, hnumber]
    case ordered =>
      rw [htickets]
      simpa only [step, hposix] using h.ordered
    case drawn =>
      rw [htickets]
      simpa only [step, hposix] using h.drawn
    case flushes =>
      intro f hf hlive hsome
      obtain ⟨ticket, hticket, hcase⟩ := h.flushes f hf hlive hsome
      refine ⟨ticket, hticket, ?_⟩
      simp only [step, hemu, hposix, hcontents']
      refine hcase.imp_right (Or.imp_right ?_)
      rintro ⟨x, hx, hrest⟩
      exact ⟨x, List.mem_append_left _ hx, hrest⟩

/-! ### The worker -/

/-- The worker takes the sentinel at the front. -/
theorem Related.take (h : s.Related) (hwait : s.posixWorker = .wait)
    (hne : s.posix.ring.count ≠ 0) (hsent : s.posix.ring.front.isWork = false) :
    Related { s with
      posix := { s.posix with ring := s.posix.ring.pop }
      posixWorker := .sentinel s.posix.ring.front.arg } := by
  have hcontents := h.posixRing.contents_pop hne
  have hrun : s.posixWorker.running = none := by rw [hwait]; rfl
  have hline : s.line = s.posix.ring.front :: s.posix.ring.pop.contents := by
    rw [line, hrun, hcontents]
    rfl
  have htickets : s.tickets = s.posix.ring.front.arg ::
      (s.posix.ring.pop.contents.filter (fun x => !x.isWork)).map (·.arg) := by
    rw [tickets, hwait, hcontents, List.filter_cons, hsent]
    rfl
  have hchain := h.chain
  have hqueued := h.queued
  have hrunning := h.running
  have hordered := h.ordered
  have hdrawn := h.drawn
  rw [hline] at hchain
  rw [htickets] at hordered hdrawn
  obtain ⟨hfirst, hrest⟩ := List.isChain_cons_cons.mp hchain
  have hstamp : s.posix.ring.front.stamp = s.base.stamp := by
    simpa [PwqEntry.Follows, hsent] using hfirst
  constructor
  case emuRing => exact h.emuRing
  case posixRing => exact h.posixRing.pop hne
  case capacity => exact h.capacity
  case tokens => exact h.tokens
  case queued =>
    rw [hcontents, List.filter_cons, if_neg (by simp [hsent])] at hqueued
    exact hqueued
  case alive => rintro ⟨⟩
  case item => rintro x ⟨⟩
  case running =>
    rw [hrun] at hrunning
    exact hrunning
  case executed => exact h.executed
  case chain => exact isChain_of_stamp hrest hstamp.symm
  case active => exact h.active
  case stamps =>
    intro x hx
    refine h.stamps x ?_
    rw [hline]
    rcases List.mem_cons.mp hx with rfl | hx
    · exact List.mem_cons_self
    · exact List.mem_cons_of_mem _ (List.mem_cons_of_mem _ hx)
  case ordered => exact hordered
  case drawn => exact hdrawn
  case flushes =>
    intro f hf hlive hsome
    obtain ⟨ticket, hticket, hdone | ⟨hheld, -⟩ | ⟨x, hx, hxsent, harg, htarget⟩⟩ :=
      h.flushes f hf hlive hsome
    · exact ⟨ticket, hticket, .inl hdone⟩
    · rw [hwait] at hheld
      cases hheld
    · refine ⟨ticket, hticket, .inr ?_⟩
      rw [hcontents] at hx
      rcases List.mem_cons.mp hx with rfl | hx
      · exact .inl ⟨congrArg some harg, (htarget.symm.trans hstamp).le⟩
      · exact .inr ⟨x, hx, hxsent, harg, htarget⟩

/-- The worker completes the ticket of its sentinel. -/
theorem Related.complete (h : s.Related) {ticket : Nat}
    (hworker : s.posixWorker = .sentinel ticket) :
    Related { s with posix := s.posix.completeTicket ticket, posixWorker := .wait } := by
  have htickets : s.tickets = ticket ::
      (s.posix.ring.contents.filter (fun x => !x.isWork)).map (·.arg) := by
    rw [tickets, hworker]
    rfl
  have hordered := h.ordered
  have hdrawn := h.drawn
  have hchain := h.chain
  have hstamps := h.stamps
  have hrunning := h.running
  rw [htickets] at hordered hdrawn
  rw [line, hworker] at hchain hstamps
  rw [hworker] at hrunning
  obtain ⟨hless, hrest⟩ := List.pairwise_cons.mp hordered
  have hlt : s.posix.completedFlushTicket < ticket := hless ticket List.mem_cons_self
  rw [PosixWq.completeTicket, if_pos hlt]
  refine { h with
    alive := nofun, item := nofun, running := hrunning, chain := hchain, stamps := hstamps
    ordered := hrest, drawn := fun t ht => hdrawn t (List.mem_cons_of_mem _ ht), flushes := ?_ }
  intro f hf hlive hsome
  obtain ⟨t, ht, hdone | ⟨hheld, htarget⟩ | hring⟩ := h.flushes f hf hlive hsome
  · exact ⟨t, ht, .inl ⟨hdone.1.trans hlt.le, hdone.2⟩⟩
  · rw [hworker] at hheld
    obtain rfl := Option.some.inj hheld
    exact ⟨_, ht, .inl ⟨le_rfl, htarget⟩⟩
  · exact ⟨t, ht, .inr (.inr hring)⟩

/-- A worker with no sentinel to take leaves all as it is. -/
theorem takeSentinel_of_settled (hsettled : s.Settled) : s.takeSentinel = s := by
  unfold takeSentinel
  split
  case h_1 hwait => exact if_pos (hsettled.2 hwait)
  case h_2 ticket hworker =>
    have hheld := hsettled.1
    rw [hworker] at hheld
    cases hheld
  case h_3 => rfl

theorem held_le (worker : PwqWorker) : worker.held.toList.length ≤ 1 := by
  cases worker.held <;> simp

/-- The steps that the worker has before it until it has taken the sentinels. -/
def toTake (s : WqPair) : Nat := 2 * s.sentinels + s.posixWorker.held.toList.length

/-- What a step with a sentinel leaves alone. -/
structure SameButSentinels (s s' : WqPair) : Prop where
  emu : s'.emu = s.emu
  running : s'.emuRunning = s.emuRunning
  executed : s'.emuExecuted = s.emuExecuted ∧ s'.posixExecuted = s.posixExecuted
  flushes : s'.flushes = s.flushes
  sentinels : s'.sentinels ≤ s.sentinels

theorem SameButSentinels.refl (s : WqPair) : SameButSentinels s s :=
  ⟨rfl, rfl, ⟨rfl, rfl⟩, rfl, le_rfl⟩

theorem Related.takeSentinel (h : s.Related) :
    s.takeSentinel.Related ∧ SameButSentinels s s.takeSentinel ∧
      (s.Settled ∨ s.takeSentinel.toTake < s.toTake) := by
  unfold WqPair.takeSentinel
  split
  case h_1 hwait =>
    split
    case isTrue hfront =>
      exact ⟨h, .refl s, .inl ⟨by rw [hwait]; rfl, fun _ => hfront⟩⟩
    case isFalse hgo =>
      obtain ⟨hne, hsent⟩ := not_or.mp hgo
      have hsent : s.posix.ring.front.isWork = false := by simpa using hsent
      have hcount : s.sentinels =
          s.posix.ring.pop.contents.countP (fun x => !x.isWork) + 1 := by
        rw [sentinels, h.posixRing.contents_pop hne, List.countP_cons_of_pos (by simp [hsent])]
      refine ⟨h.take hwait hne hsent, ⟨rfl, rfl, ⟨rfl, rfl⟩, rfl, hcount ▸ Nat.le_succ _⟩, .inr ?_⟩
      rw [toTake, toTake, hcount, hwait]
      simp only [sentinels, PwqWorker.held, Option.toList_some, Option.toList_none,
        List.length_cons, List.length_nil]
      omega
  case h_2 ticket hworker =>
    have hring : (s.posix.completeTicket ticket).ring = s.posix.ring := by
      unfold PosixWq.completeTicket
      split <;> rfl
    refine ⟨h.complete hworker,
      ⟨rfl, rfl, ⟨rfl, rfl⟩, rfl, by simp only [sentinels, hring, le_rfl]⟩, .inr ?_⟩
    simp only [toTake, sentinels, hring, hworker, PwqWorker.held, Option.toList_some,
      Option.toList_none, List.length_cons, List.length_nil]
    omega
  case h_3 hwait hnone =>
    refine ⟨h, .refl s, .inl ⟨?_, fun hw => absurd hw hwait⟩⟩
    cases hworker : s.posixWorker with
    | sentinel ticket => exact absurd hworker (hnone ticket)
    | _ => rfl

theorem Related.takeSentinels (h : s.Related) {n : Nat} (hn : s.toTake ≤ n) :
    (WqPair.takeSentinel^[n] s).Related ∧ SameButSentinels s (WqPair.takeSentinel^[n] s) ∧
      (WqPair.takeSentinel^[n] s).Settled := by
  induction n generalizing s with
  | zero =>
      refine ⟨h, .refl s, ?_⟩
      rcases h.takeSentinel.2.2 with hsettled | hless
      · exact hsettled
      · exact absurd hless (by omega)
  | succ n ih =>
      -- Either nothing is left to take, and further steps do nothing, or less is left than before.
      obtain ⟨hnext, hsame, hsettled | hless⟩ := h.takeSentinel
      · rw [Function.iterate_fixed (takeSentinel_of_settled hsettled)]
        exact ⟨h, .refl s, hsettled⟩
      rw [Function.iterate_succ_apply]
      obtain ⟨hrelated, hsame', hsettled⟩ := ih hnext (by omega)
      exact ⟨hrelated, ⟨hsame'.emu.trans hsame.emu, hsame'.running.trans hsame.running,
        ⟨hsame'.executed.1.trans hsame.executed.1, hsame'.executed.2.trans hsame.executed.2⟩,
        hsame'.flushes.trans hsame.flushes, hsame'.sentinels.trans hsame.sentinels⟩, hsettled⟩

theorem Related.settle (h : s.Related) :
    s.settle.Related ∧ SameButSentinels s s.settle ∧ s.settle.Settled := by
  refine h.takeSentinels ?_
  have hone := held_le s.posixWorker
  unfold toTake
  omega

/-- An idle worker starts nothing in either queue, or the same item in both. -/
theorem Related.takeNext_cases (h : s.Related) (hwait : s.posixWorker = .wait)
    (hsettled : s.Settled) :
    (s.emu.takeNext = (none, s.emu) ∧ s.posix.takeNext = (none, s.posix)) ∨
      (s.emu.ring.count ≠ 0 ∧ s.posix.ring.count ≠ 0 ∧
        s.posix.ring.front.isWork = true ∧
        s.posix.ring.front.toEmu = s.emu.ring.front ∧
        s.emu.takeNext = (some s.emu.ring.front,
          { s.emu with
            ring := s.emu.ring.pop
            notEmpty := s.emu.notEmpty - 1
            workerActive := true
            activeSequence := s.emu.ring.front.sequence }) ∧
        s.posix.takeNext =
          (some s.posix.ring.front, { s.posix with ring := s.posix.ring.pop })) := by
  have hcount := h.count
  by_cases hempty : s.posix.ring.count = 0
  · left
    have hemu : s.emu.notEmpty = 0 := by
      have htokens := h.tokens
      omega
    exact ⟨by rw [EmuWq.takeNext, if_pos hemu], by rw [PosixWq.takeNext, if_pos hempty]⟩
  · have hcontents := h.posixRing.contents_pop hempty
    have hwork := (hsettled.2 hwait).resolve_left hempty
    have hqueued := h.queued
    rw [hcontents, List.filter_cons, if_pos hwork, List.map_cons] at hqueued
    have hemu : s.emu.ring.count ≠ 0 := by
      rw [← Ring.length_contents, ← hqueued, List.length_cons]
      exact Nat.succ_ne_zero _
    rw [h.emuRing.contents_pop hemu] at hqueued
    refine .inr ⟨hemu, hempty, hwork, (List.cons.inj hqueued).1, ?_, ?_⟩
    · rw [EmuWq.takeNext, if_neg (by rw [h.tokens]; exact hemu), if_neg hemu]
      simp only [EmuWq.start, EmuWq.dequeue_eq h.emuRing]
    · rw [PosixWq.takeNext, if_neg hempty]

theorem Related.startNext (h : s.Related) (hsettled : s.Settled) : s.startNext.Related := by
  by_cases hwait : s.posixWorker = .wait
  · have hidle := (h.wait_iff.mp hwait).2
    have hstart : s.startNext =
        { s with
          emu := s.emu.takeNext.2
          emuRunning := s.emu.takeNext.1
          emuExecuted := s.emuExecuted ++ (s.emu.takeNext.1.map (·.toWorkItem)).toList
          posix := s.posix.takeNext.2
          posixWorker := (s.posix.takeNext.1.map .run).getD .wait
          posixExecuted := s.posixExecuted ++ (s.posix.takeNext.1.map (·.toWorkItem)).toList } := by
      simp only [WqPair.startNext, hwait, hidle, if_true]
    rw [hstart]
    rcases h.takeNext_cases hwait hsettled with
      ⟨hemu, hposix⟩ | ⟨hpos, hpos', hwork, hfront, hemu, hposix⟩
    · simp only [hemu, hposix, Option.map_none, Option.getD_none, Option.toList_none,
        List.append_nil]
      obtain ⟨emu, emuRunning, emuExecuted, posix, posixWorker, posixExecuted, flushes⟩ := s
      simp only at hwait hidle
      subst hwait hidle
      exact h
    · have hcontents := h.posixRing.contents_pop hpos'
      have hcontents' := h.emuRing.contents_pop hpos
      have hqueued := h.queued
      rw [hcontents, hcontents', List.filter_cons, if_pos hwork, List.map_cons] at hqueued
      -- The front of the ring is now what the worker executes: the line stays.
      have hline : s.line = s.posix.ring.front :: s.posix.ring.pop.contents := by
        rw [line, hwait, hcontents]
        rfl
      have htickets : s.tickets =
          (s.posix.ring.pop.contents.filter (fun x => !x.isWork)).map (·.arg) := by
        rw [tickets, hwait, hcontents, List.filter_cons, if_neg (by simp [hwork])]
        rfl
      have hchain := h.chain
      have hstamps := h.stamps
      have hordered := h.ordered
      have hdrawn := h.drawn
      rw [hline] at hchain hstamps
      rw [htickets] at hordered hdrawn
      rw [hemu, hposix]
      constructor
      case emuRing => exact h.emuRing.pop hpos
      case posixRing => exact h.posixRing.pop hpos'
      case capacity => exact h.capacity
      case tokens => simp only [Ring.pop, h.tokens]
      case queued => exact (List.cons.inj hqueued).2
      case alive => rintro ⟨⟩
      case item =>
        intro x hx
        cases hx
        exact hwork
      case running => exact congrArg some hfront
      case executed =>
        simp only [h.executed, ← hfront]
        rfl
      case chain => exact hchain
      case active => exact ⟨rfl, rfl⟩
      case stamps => exact hstamps
      case ordered => exact hordered
      case drawn => exact hdrawn
      case flushes =>
        intro f hf hlive hsome
        obtain ⟨ticket, hticket, hdone | ⟨hheld, -⟩ | ⟨x, hx, hsent, hrest⟩⟩ :=
          h.flushes f hf hlive hsome
        · exact ⟨ticket, hticket, .inl hdone⟩
        · rw [hwait] at hheld
          cases hheld
        · refine ⟨ticket, hticket, .inr (.inr ⟨x, ?_, hsent, hrest⟩)⟩
          rw [hcontents] at hx
          rcases List.mem_cons.mp hx with rfl | hx
          · cases hwork.symm.trans hsent
          · exact hx
  · have hbusy : s.emuRunning ≠ none := fun hnone => hwait (h.wait_iff.mpr ⟨hsettled.1, hnone⟩)
    have hstart : s.startNext = s := by simp only [WqPair.startNext, if_neg hwait, if_neg hbusy]
    rw [hstart]
    exact h

/-- The worker finishes its item. -/
theorem Related.finish (h : s.Related) : (s.step .finish).Related := by
  cases hrun : s.posixWorker.running with
  | none =>
      have hidle := h.idle_iff.mp hrun
      have hstep : s.step .finish = s := by
        simp only [WqPair.step, hrun, hidle, Option.map_none, Option.getD_none, if_true]
        obtain ⟨emu, emuRunning, emuExecuted, posix, posixWorker, posixExecuted, flushes⟩ := s
        simp only at hidle
        subst hidle
        rfl
      rw [hstep]
      exact h
  | some w =>
      have hworker : s.posixWorker = .run w := by
        cases hworker : s.posixWorker with
        | run entry =>
            rw [hworker] at hrun
            exact congrArg PwqWorker.run (Option.some.inj hrun)
        | _ =>
            rw [hworker] at hrun
            cases hrun
      have hbusy : s.emuRunning = some w.toEmu := by rw [← h.running, hrun, Option.map_some]
      have hchain := h.chain
      have hstamps := h.stamps
      have htickets : s.tickets = List.map (·.arg)
          (s.posix.ring.contents.filter (fun x => !x.isWork)) := by rw [tickets, hworker]; rfl
      have hordered := h.ordered
      have hdrawn := h.drawn
      rw [htickets] at hordered hdrawn
      rw [line, hworker] at hchain hstamps
      obtain ⟨hfirst, hrest⟩ := List.isChain_cons_cons.mp hchain
      rw [PwqEntry.Follows, if_pos (h.item w hrun)] at hfirst
      have hstep : s.step .finish =
          { s with emu := s.emu.complete w.toEmu, emuRunning := none, posixWorker := .wait } := by
        simp only [WqPair.step, hworker, hbusy, Option.map_some, Option.getD_some,
          PwqWorker.running, reduceCtorEq, if_false]
      rw [hstep]
      constructor
      case emuRing => exact h.emuRing
      case posixRing => exact h.posixRing
      case capacity => exact h.capacity
      case tokens => exact h.tokens
      case queued => exact h.queued
      case alive => rintro ⟨⟩
      case item => rintro x ⟨⟩
      case running => rfl
      case executed => exact h.executed
      case chain => exact isChain_of_stamp hrest rfl
      case active => rfl
      case stamps =>
        intro x hx
        rcases List.mem_cons.mp hx with rfl | hx
        · exact hstamps w (List.mem_cons_of_mem _ List.mem_cons_self)
        · exact hstamps x (List.mem_cons_of_mem _ (List.mem_cons_of_mem _ hx))
      case ordered => exact hordered
      case drawn => exact hdrawn
      case flushes =>
        intro f hf hlive hsome
        obtain ⟨ticket, hticket, hdone | ⟨hheld, -⟩ | hring⟩ := h.flushes f hf hlive hsome
        · exact ⟨ticket, hticket, .inl ⟨hdone.1, hdone.2.trans hfirst.le⟩⟩
        · rw [hworker] at hheld
          cases hheld
        · exact ⟨ticket, hticket, .inr (.inr hring)⟩

/-! ### Calls -/

/-- The items in the line are those of the emulated queue. -/
theorem Related.works_line (h : s.Related) :
    (s.line.filter PwqEntry.isWork).map PwqEntry.toEmu =
      s.emuRunning.toList ++ s.emu.ring.contents := by
  rw [line, List.filter_append, List.map_append, h.queued, ← h.running]
  congr 1
  cases hrun : s.posixWorker.running with
  | none => rfl
  | some w => simp [h.item w hrun]

/-- The target of an emulated flush is the last stamp of the line. -/
theorem Related.flushTarget (h : s.Related) :
    (s.line.getLast?.getD s.base).stamp = s.emu.flushTarget := by
  have hworks := congrArg List.getLast? h.works_line
  rw [List.getLast?_map] at hworks
  have hlast : (s.line.getLast?.getD s.base).stamp =
      ((s.emuRunning.toList ++ s.emu.ring.contents).getLast?.getD s.base.toEmu).sequence := by
    rw [← stamp_last h.chain, ← hworks]
    cases (s.line.filter PwqEntry.isWork).getLast? <;> rfl
  rw [hlast]
  by_cases hempty : s.emu.ring.count = 0
  · have hactive := h.active
    rw [Ring.contents_eq_nil_iff.mpr hempty, List.append_nil]
    cases hrun : s.emuRunning with
    | none =>
        rw [hrun] at hactive
        rw [EmuWq.flushTarget, if_neg (not_not.mpr hempty), if_neg (by simp [show
          s.emu.workerActive = false from hactive])]
        rfl
    | some entry =>
        rw [hrun] at hactive
        rw [EmuWq.flushTarget, if_neg (not_not.mpr hempty), if_pos hactive.1, hactive.2]
        rfl
  · rw [List.getLast?_append, h.emuRing.contents_last hempty, EmuWq.flushTarget, if_pos hempty]
    rfl

/-- The sentinel of a flush. -/
def sentinel (s : WqPair) : PwqEntry := ⟨⟨0, s.posix.nextFlushTicket + 1⟩, s.emu.flushTarget⟩

theorem flushBegin_of_room (hroom : s.posix.ring.count < s.posix.ring.capacity) :
    s.posix.flushBegin s.emu.flushTarget = (some (s.posix.nextFlushTicket + 1),
      { s.posix with
        nextFlushTicket := s.posix.nextFlushTicket + 1
        ring := s.posix.ring.push s.sentinel }) := by
  rw [PosixWq.flushBegin, if_neg (Nat.not_le.mpr hroom)]
  rfl

/-- An accepted flush waits for its sentinel, and for the last item. -/
theorem Related.flush (h : s.Related) (hroom : s.posix.ring.count < s.posix.ring.capacity) :
    (s.step .flush).Related := by
  have hcontents := h.posixRing.contents_push hroom s.sentinel
  have hsent : s.sentinel.isWork = false := rfl
  have hstep : s.step .flush =
      { s with
        posix := { s.posix with
          nextFlushTicket := s.posix.nextFlushTicket + 1
          ring := s.posix.ring.push s.sentinel }
        flushes := s.flushes ++
          [⟨s.emu.flushTarget, some (s.posix.nextFlushTicket + 1), false⟩] } := by
    rw [WqPair.step, flushBegin_of_room hroom]
  have hline : (s.step .flush).line = s.line ++ [s.sentinel] := by
    rw [hstep, line, line, hcontents, List.append_assoc]
  have htickets : (s.step .flush).tickets = s.tickets ++ [s.posix.nextFlushTicket + 1] := by
    rw [hstep, tickets, tickets, hcontents, List.filter_append, List.map_append,
      ← List.append_assoc]
    rfl
  have hlast : ∀ x ∈ (s.base :: s.line).getLast?, x.stamp = s.emu.flushTarget := by
    intro x hx
    rw [List.getLast?_cons] at hx
    rw [← Option.some.inj hx]
    exact h.flushTarget
  have hless : ∀ ticket ∈ s.posix.completedFlushTicket :: s.tickets,
      ticket < s.posix.nextFlushTicket + 1 := fun ticket ht => Nat.lt_succ_of_le (h.drawn ticket ht)
  constructor
  case emuRing => exact h.emuRing
  case posixRing =>
    rw [hstep]
    exact h.posixRing.push hroom s.sentinel
  case capacity =>
    rw [hstep]
    exact h.capacity
  case tokens => exact h.tokens
  case queued =>
    rw [hstep, hcontents, List.filter_append, List.map_append, h.queued]
    exact List.append_nil _
  case alive => exact h.alive
  case item => exact h.item
  case running => exact h.running
  case executed => exact h.executed
  case chain =>
    rw [hline, ← List.cons_append]
    refine List.isChain_append.mpr ⟨h.chain, .singleton _, ?_⟩
    intro x hx y hy
    cases hy
    exact (hlast x hx).symm
  case active => exact h.active
  case stamps =>
    intro x hx
    rw [hline, ← List.cons_append] at hx
    rcases List.mem_append.mp hx with hx | hx
    · exact h.stamps x hx
    · have hend : (s.base :: s.line).getLast? = some (s.line.getLast?.getD s.base) :=
        List.getLast?_cons
      rw [List.mem_singleton.mp hx, show s.sentinel.stamp = _ from (hlast _ hend).symm]
      exact h.stamps _ (List.mem_of_getLast? hend)
  case ordered =>
    rw [htickets, hstep, ← List.cons_append]
    exact List.pairwise_append.mpr ⟨h.ordered, List.pairwise_singleton _ _,
      fun x hx y hy => List.mem_singleton.mp hy ▸ hless x hx⟩
  case drawn =>
    intro ticket ht
    rw [htickets, hstep, ← List.cons_append] at ht
    rw [hstep]
    rcases List.mem_append.mp ht with ht | ht
    · exact (hless ticket ht).le
    · exact (List.mem_singleton.mp ht).le
  case flushes =>
    intro f hf hlive hsome
    rw [hstep] at hf ⊢
    rcases List.mem_append.mp hf with hf | hf
    · obtain ⟨ticket, hticket, hcase⟩ := h.flushes f hf hlive hsome
      refine ⟨ticket, hticket, hcase.imp_right (Or.imp_right ?_)⟩
      rintro ⟨x, hx, hrest⟩
      exact ⟨x, by rw [hcontents]; exact List.mem_append_left _ hx, hrest⟩
    · rw [List.mem_singleton.mp hf]
      refine ⟨_, rfl, .inr (.inr ⟨s.sentinel, ?_, hsent, rfl, rfl⟩)⟩
      rw [hcontents]
      exact List.mem_append_right _ (List.mem_singleton.mpr rfl)

theorem step_flush_refused (hfull : s.posix.ring.count ≥ s.posix.ring.capacity) :
    s.step .flush = { s with flushes := s.flushes ++ [⟨s.emu.flushTarget, none, false⟩] } := by
  rw [WqPair.step, PosixWq.flushBegin, if_pos hfull]

/-- A flush that finds the pthread ring full leaves both queues as they are. -/
theorem Related.flush_refused (h : s.Related)
    (hfull : s.posix.ring.count ≥ s.posix.ring.capacity) : (s.step .flush).Related := by
  rw [step_flush_refused hfull]
  refine { h with flushes := ?_ }
  intro f hf hlive hsome
  rcases List.mem_append.mp hf with hf | hf
  · exact h.flushes f hf hlive hsome
  · rw [List.mem_singleton.mp hf] at hsome
    exact absurd rfl hsome

/-- The flushes in progress are no longer tracked. -/
theorem Related.cancelAll (h : s.Related) : (s.step .cancelAll).Related := by
  have hline : (s.step .cancelAll).line = s.posixWorker.running.toList := List.append_nil _
  have htickets : (s.step .cancelAll).tickets = s.posixWorker.held.toList := List.append_nil _
  have hsub : s.base :: s.posixWorker.running.toList <+: s.base :: s.line :=
    List.prefix_append (s.base :: s.posixWorker.running.toList) _
  have hsub' : List.Sublist (s.posix.completedFlushTicket :: s.posixWorker.held.toList)
      (s.posix.completedFlushTicket :: s.tickets) :=
    (List.sublist_append_left _ _).cons_cons _
  constructor
  case emuRing => exact h.emuRing.clear
  case posixRing => exact h.posixRing.clear
  case capacity => exact h.capacity
  case tokens =>
    have htokens := h.tokens
    simp only [step, EmuWq.cancelAll, Ring.clear]
    omega
  case queued => rfl
  case alive => exact h.alive
  case item => exact h.item
  case running => exact h.running
  case executed => exact h.executed
  case chain => rw [hline]; exact h.chain.prefix hsub
  case active => exact h.active.congr rfl rfl
  case stamps =>
    intro x hx
    rw [hline] at hx
    exact h.stamps x (hsub.subset hx)
  case ordered => rw [htickets]; exact h.ordered.sublist hsub'
  case drawn =>
    intro ticket ht
    rw [htickets] at ht
    exact h.drawn ticket (hsub'.subset ht)
  case flushes =>
    intro f hf hlive hsome
    obtain ⟨g, -, rfl⟩ := List.mem_map.mp hf
    cases hlive

theorem Related.flushEnd (h : s.Related) (k : Nat) : (s.step (.flushEnd k)).Related :=
  { h with flushes := fun f hf => h.flushes f (List.mem_of_mem_eraseIdx hf) }

theorem Related.step (h : s.Related) {op : WqOp} (hroom : s.HasRoom op) :
    (s.step op).Related := by
  cases op with
  | submit func arg => exact h.submit hroom
  | start => exact h.settle.1.startNext h.settle.2.2
  | finish => exact h.finish
  | sentinel => exact h.takeSentinel.1
  | flush =>
      rcases Nat.lt_or_ge s.posix.ring.count s.posix.ring.capacity with hlt | hfull
      · exact h.flush hlt
      · exact h.flush_refused hfull
  | flushEnd k => exact h.flushEnd k
  | cancelAll => exact h.cancelAll

end WqPair

/-! ### Agreement -/

theorem wqPair_related {depth : Nat} (hdepth : 0 < depth) {s : WqPair}
    (h : (wqPairMachine depth).ReachableBy WqPair.HasRoom s) : s.Related := by
  refine h.invariant (WqPair.related_create hdepth) ?_
  intro s op s' _ hrel hroom hs
  cases hs
  exact hrel.step hroom

/-- What a caller sees of the two queues. -/
structure WqPair.Agrees (s : WqPair) : Prop where
  executed : s.posixExecuted = s.emuExecuted
  running : s.posixWorker.running.map (·.toWorkItem) = s.emuRunning.map (·.toWorkItem)
  pending : s.posix.pending = s.emu.pending + s.sentinels
  submits : ∀ func arg, s.HasRoom (.submit func arg) →
    (s.posix.submit func arg s.number).1 = (s.emu.submit func arg).1
  /-- The two flushes return the same, unless the worker has yet to take a sentinel before it can
  start an item, -/
  flushes : s.Settled → ∀ f ∈ s.flushes, f.cancelled = false → f.ticket ≠ none →
    f.posixResult s.posix = f.emuResult s.emu
  /-- and then too the pthread flush is not the first to end. -/
  later : ∀ f ∈ s.flushes, f.cancelled = false → f.posixResult s.posix = .ok →
    f.emuResult s.emu = .ok
  /-- A few steps of the worker, and it has taken its sentinels; nothing else happens. -/
  settles : ∃ n ≤ 2 * s.sentinels + 1, (WqPair.step · .sentinel)^[n] s = s.settle ∧
    s.settle.Settled ∧ WqPair.SameButSentinels s s.settle
  /-- Then sentinels stay only behind an item. -/
  sentinels : s.Settled → s.emuRunning = none → s.emu.pending = 0 → s.sentinels = 0
  /-- The pthread flush is refused when the ring is full, and then only; it changes nothing. -/
  refused : (s.posix.flushBegin s.emu.flushTarget).1 = none ↔
    s.posix.pending = s.posix.ring.capacity
  unchanged : s.posix.pending = s.posix.ring.capacity → (s.step .flush).posix = s.posix
  emuFlush : (s.step .flush).emu = s.emu
  flushEnd : ∀ k, (s.step (.flushEnd k)).emu = s.emu ∧ (s.step (.flushEnd k)).posix = s.posix

namespace WqPair

variable {s : WqPair}

theorem Related.sentinels_idle (h : s.Related) (hsettled : s.Settled)
    (hidle : s.emuRunning = none) (hempty : s.emu.ring.count = 0) : s.sentinels = 0 := by
  have hwait := h.wait_iff.mpr ⟨hsettled.1, hidle⟩
  rcases h.takeNext_cases hwait hsettled with ⟨-, hposix⟩ | ⟨hpos, -⟩
  · have hcount : s.posix.ring.count = 0 := by
      by_contra hne
      rw [PosixWq.takeNext, if_neg hne] at hposix
      cases hposix
    have hsum := h.count
    omega
  · exact absurd hempty hpos

theorem Related.flush_refused_iff (h : s.Related) :
    (s.posix.flushBegin s.emu.flushTarget).1 = none ↔
      s.posix.pending = s.posix.ring.capacity := by
  have hle := h.posixRing.count_le
  unfold PosixWq.flushBegin PosixWq.pending
  split
  · next hfull => exact ⟨fun _ => le_antisymm hle hfull, fun _ => rfl⟩
  · next hlt => exact ⟨nofun, fun heq => absurd heq.ge hlt⟩

theorem Related.agrees (h : s.Related) : s.Agrees where
  executed := h.executed
  running := by
    rw [← h.running, Option.map_map]
    rfl
  pending := h.count
  submits := by
    intro func arg hroom
    rcases h.submit_cases hroom with ⟨hsame, -⟩ | ⟨-, -, -, hemu, hposix⟩
    · exact hsame
    · rw [hemu, hposix]
  flushes := fun hsettled _ hf hlive hsome => h.flush_result hf hlive hsome hsettled
  later := fun _ hf hlive hok => h.flush_later hf hlive hok
  settles := ⟨_, le_rfl, rfl, h.settle.2.2, h.settle.2.1⟩
  sentinels := h.sentinels_idle
  refused := h.flush_refused_iff
  unchanged := fun hfull => by rw [step_flush_refused (Nat.le_of_eq hfull.symm)]
  emuFlush := rfl
  flushEnd := fun _ => ⟨rfl, rfl⟩

theorem Related.sentinels_startNext (h : s.Related) (hsettled : s.Settled) :
    s.startNext.sentinels ≤ s.sentinels := by
  by_cases hwait : s.posixWorker = .wait
  · simp only [sentinels, WqPair.startNext, if_pos hwait]
    rcases h.takeNext_cases hwait hsettled with ⟨-, hposix⟩ | ⟨-, hpos, -, -, -, hposix⟩
    · rw [hposix]
    · rw [hposix, h.posixRing.contents_pop hpos]
      exact (List.sublist_cons_self _ _).countP_le
  · simp only [sentinels, WqPair.startNext, if_neg hwait, le_rfl]

/-- Without a flush there are no sentinels. -/
theorem Related.sentinels_step (h : s.Related) {op : WqOp} (hroom : s.HasRoom op)
    (hop : op ≠ .flush) (hzero : s.sentinels = 0) : (s.step op).sentinels = 0 := by
  cases op with
  | submit func arg =>
      rcases h.submit_cases hroom with ⟨-, heq⟩ | ⟨hfunc, -, hlt, -, hposix⟩
      · rw [heq]
        exact hzero
      · have hcontents := h.posixRing.contents_push hlt ⟨⟨func, arg⟩, s.number⟩
        simp only [sentinels, WqPair.step, hposix, hcontents, List.countP_append]
        rw [show s.posix.ring.contents.countP (fun x => !x.isWork) = 0 from hzero]
        simp [PwqEntry.isWork, hfunc]
  | start =>
      obtain ⟨hrelated, hsame, hsettled⟩ := h.settle
      exact Nat.le_zero.mp (hzero ▸ (hrelated.sentinels_startNext hsettled).trans hsame.sentinels)
  | finish => exact hzero
  | sentinel => exact Nat.le_zero.mp (hzero ▸ h.takeSentinel.2.1.sentinels)
  | flush => exact absurd rfl hop
  | flushEnd k => exact hzero
  | cancelAll => rfl

end WqPair

theorem wqPair_no_flush {depth : Nat} (hdepth : 0 < depth) {s : WqPair}
    (h : (wqPairMachine depth).ReachableBy (fun _ op => op ≠ .flush) s) :
    (wqPairMachine depth).ReachableBy WqPair.HasRoom s ∧ s.sentinels = 0 := by
  refine h.invariant (I := fun s => (wqPairMachine depth).ReachableBy WqPair.HasRoom s ∧
    s.sentinels = 0) ⟨.init, rfl⟩ ?_
  rintro s op s' - ⟨hreach, hzero⟩ hop hs
  have hrel := wqPair_related hdepth hreach
  have hroom : s.HasRoom op := by
    have hcount := hrel.count
    have hcap := hrel.capacity
    cases op with
    | submit func arg =>
        intro hlt
        omega
    | start => trivial
    | finish => trivial
    | sentinel => trivial
    | flush => exact absurd rfl hop
    | flushEnd k => trivial
    | cancelAll => trivial
  refine ⟨.step hreach hroom hs, ?_⟩
  cases hs
  exact hrel.sentinels_step hroom hop hzero

/-- As long as the pthread ring has room for what is submitted, the two queues agree; in
particular in every run without a flush, where `pending` is the same too. -/
theorem workQueues_agree {depth : Nat} (hdepth : 0 < depth) :
    (∀ s, (wqPairMachine depth).ReachableBy WqPair.HasRoom s → s.Agrees) ∧
      (∀ s, (wqPairMachine depth).ReachableBy (fun _ op => op ≠ .flush) s →
        s.Agrees ∧ s.posix.pending = s.emu.pending ∧
          ∀ func arg, (s.posix.submit func arg s.number).1 = (s.emu.submit func arg).1) := by
  refine ⟨fun s h => (wqPair_related hdepth h).agrees, fun s h => ?_⟩
  obtain ⟨hreach, hzero⟩ := wqPair_no_flush hdepth h
  have hrel := wqPair_related hdepth hreach
  have hcount := hrel.count
  have hcap := hrel.capacity
  rw [hzero] at hcount
  refine ⟨hrel.agrees, hcount, fun func arg => hrel.agrees.submits func arg ?_⟩
  intro hlt
  omega

/-- A flush is in progress behind an item that runs, and both queues answer alike. -/
theorem workQueues_agree_behind_item : ∃ s,
    (wqPairMachine 2).run (wqPairMachine 2).init [.submit 7 1, .start, .flush] = some s ∧
      s.posix.pending = 1 ∧ s.emu.pending = 0 ∧ s.Agrees := by
  have hok : (wqPairMachine 2).RunOk WqPair.HasRoom (wqPairMachine 2).init
      [.submit 7 1, .start, .flush] := by decide +kernel
  have hrun : ((wqPairMachine 2).run (wqPairMachine 2).init
      [.submit 7 1, .start, .flush]).map (fun s => (s.posix.pending, s.emu.pending)) =
        some (1, 0) := by decide +kernel
  obtain ⟨s, hs, hpending⟩ := Option.map_eq_some_iff.mp hrun
  obtain ⟨hposix, hemu⟩ := Prod.mk.inj hpending
  exact ⟨s, hs, hposix, hemu, (workQueues_agree (by decide)).1 s (.of_run .init hok hs)⟩

/-- A full pthread ring refuses the flush; a sentinel is pending and takes the place of an
item; a flush of an idle queue has to wait for the worker; and a flush whose sentinel was cancelled
does not end with its item. -/
theorem workQueues_differ :
    ((wqPairMachine 1).run (wqPairMachine 1).init [.submit 7 1, .flush]).map
        (fun s => s.flushes.map (fun f => (f.emuResult s.emu, f.posixResult s.posix))) =
      some [(.timeout, .overflow)] ∧
    ((wqPairMachine 2).run (wqPairMachine 2).init [.submit 7 1, .flush]).map
        (fun s => (s.emu.pending, s.posix.pending)) = some (1, 2) ∧
    ((wqPairMachine 2).run (wqPairMachine 2).init [.submit 7 1, .flush]).map
        (fun s => ((s.emu.submit 7 2).1, (s.posix.submit 7 2 s.number).1)) =
      some (.ok, .overflow) ∧
    ((wqPairMachine 2).run (wqPairMachine 2).init [.flush]).map
        (fun s => (s.flushes.map (fun f => (f.emuResult s.emu, f.posixResult s.posix)),
          s.emu.pending, s.posix.pending)) = some ([(.ok, .timeout)], 0, 1) ∧
    ((wqPairMachine 2).run (wqPairMachine 2).init
        [.submit 7 1, .start, .flush, .cancelAll, .finish]).map
        (fun s => s.flushes.map (fun f => (f.emuResult s.emu, f.posixResult s.posix))) =
      some [(.ok, .timeout)] := by
  refine ⟨?_, ?_, ?_, ?_, ?_⟩ <;> decide +kernel

end MicrOsal
