import Libmacro.Threads.Mutex
import Libmacro.Threads.ThreadLimit

/-! # The range of the queue counter

`_queued` is tested and decremented in separate steps, and `incQueued` and `limitMaxThreads` compare
it with `_threadMax` after a conversion to `unsigned int`. `counterInRange`: it stays between 0 and
`_threadMax`, and no start is refused on its account, in the runs in which each access to the
counter or its limit finds a state it can be made in (`counterFits`).

The invariant: a queue above its limit is one that a thread inside `limitMaxThreads` has yet to
correct, and a start that has yet to check the queue finds an entry there. -/

namespace Libmacro

open Interleaving

/-- `limitMaxThreads` is on its way to `_queued = 0`. -/
def LimitPc.resets (limit : ℕ) (mac : Macro) : LimitPc → Bool
  | clamp => toUnsigned mac.queued > (mac.clampThreadMax limit).threadMax
  | load => toUnsigned mac.queued > mac.threadMax
  | store => true

/-- Where in `limitMaxThreads` the thread stands. -/
def Thread.limitPoint : Thread → Option LimitPc
  | worker _ _ (.limit p) | call _ (.start (.incLimit p)) | call _ (.start (.limit p))
  | call _ (.limit p) | call _ (.copy _ (.limit p)) => some p
  | _ => none

/-- `start` is past its comparison in `incQueued` and has not accepted the queue yet. -/
def StartPc.checks : StartPc → Bool
  | incLimit _ | retTest | zeroTest => true
  | _ => false

/-- The thread is a `start` of macro `m` that has yet to accept the queue. -/
def Thread.checks (m : MacroId) : Thread → Bool
  | call m' (.start p) => p.checks && m' = m
  | _ => false

/-- A start of macro `m` has yet to accept the queue. -/
def checking (m : MacroId) (c : Config Memory Thread) : Bool := c.pool.any (Thread.checks m)

/-- An access to `_queued` or `_threadMax` by a thread of macro `m` finds a state for it: the limit
is brought into a range that is not empty, the decrement finds the entry still there, the increment
finds the room still there, and an entry that a start has yet to check is not taken away. -/
def Access.fitsCounter (m : MacroId) (c : Config Memory Thread) : Access → Bool
  | clampThreadMax => c.shared.threadLimit ≠ 0 ∧ (checking m c = true →
      toUnsigned (c.shared.macros m).queued ≤
        ((c.shared.macros m).clampThreadMax c.shared.threadLimit).threadMax)
  | clearQueued => !checking m c
  | decQueued => 0 < (c.shared.macros m).queued ∧
      (checking m c = true → 1 < (c.shared.macros m).queued)
  | incQueued => toUnsigned (c.shared.macros m).queued < (c.shared.macros m).threadMax ∧
      (c.shared.macros m).queued < 2 ^ 31 - 1
  | _ => true

/-- No thread of macro `m` is about to reset the queue. -/
def noReset (m : MacroId) (c : Config Memory Thread) : Bool :=
  c.pool.all fun t => t.macroId ≠ m ∨
    t.limitPoint.all fun p => !p.resets c.shared.threadLimit (c.shared.macros m)

/-- The step of a thread makes its access in a state for it; a comparison in `incQueued` is made
while no `limitMaxThreads` is about to reset the queue. -/
def counterFits (c : Config Memory Thread) : Label Thread Bool → Bool
  | .step i k =>
    match c.pool[i]? with
    | some t => ((t.move c i k).all fun mv => mv.access.fitsCounter t.macroId c) &&
      match t with
      | .call m (.start .incTest) => noReset m c
      | _ => true
    | none => true
  | .call _ => true

/-- **The counter of macro `m` is in range**, in a configuration from which steps that meet
`allowed` are taken: the limit and the counter are, a comparison in `incQueued` finds the counter
within the limit, and no start is refused on account of the counter. -/
structure CounterInRange (allowed : Config Memory Thread → Label Thread Bool → Prop) (m : MacroId)
    (c : Config Memory Thread) : Prop where
  threadMax : 1 ≤ (c.shared.macros m).threadMax
  queued : 0 ≤ (c.shared.macros m).queued
  compared : ∀ i k, allowed c (.step i k) → c.pool[i]? = some (.call m (.start .incTest)) →
    toUnsigned (c.shared.macros m).queued ≤ (c.shared.macros m).threadMax
  admitted : Thread.call m (.start .refuse) ∉ c.pool

/-! ## What a step does to the counter -/

/-- The conversion keeps the values an `int` can have from 0 on. -/
theorem toUnsigned_of_range {q : ℤ} (h : 0 ≤ q) (h' : q < 2 ^ 31) : (toUnsigned q : ℤ) = q := by
  unfold toUnsigned
  omega

/-- The access moves the counter up or down, or its limit. -/
def Access.counts : Access → Bool
  | incQueued | decQueued | clampThreadMax | setThreadMax _ | assign _ => true
  | _ => false

section Edges

variable {mac : Macro} {mem mem' : Memory} {m : MacroId} {i : ThreadId} {a : Access}
  {pool : List Thread}

/-- Every other access leaves the limit, and leaves or clears the counter. -/
theorem Access.apply_of_not_counts (h : a.apply m mem = some mem') (ha : a.counts = false) :
    ((mem'.macros m).queued = (mem.macros m).queued ∨ (mem'.macros m).queued = 0) ∧
      (mem'.macros m).threadMax = (mem.macros m).threadMax := by
  have hqueued := apply_queued h
  have hmax := apply_threadMax h
  cases a with
  | incQueued | decQueued | clampThreadMax | setThreadMax | assign => cases ha
  | clearQueued | refuseSlot => exact ⟨.inr hqueued, hmax⟩
  | storeInterruptor val =>
    -- `INTERRUPT_ALL` clears, every other value leaves
    refine ⟨?_, hmax⟩
    simp only at hqueued
    split_ifs at hqueued
    · exact .inr hqueued
    · exact .inl hqueued
  | _ => exact ⟨.inl hqueued, hmax⟩

/-- `dequeue` clears the queue, and counts it neither up nor down. -/
theorem DequeuePc.Step.counts {val : Interrupt} {p : DequeuePc} {q : Option DequeuePc}
    (h : p.Step val a q) : a.counts = false := by
  cases h <;> rfl

/-- A wait leaves the queue alone. -/
theorem WaitPc.Step.counts {b : Bool} {p : WaitPc} {q : Option WaitPc} (h : p.Step mac b a q) :
    a.counts = false := by
  cases h <;> rfl

/-- `setInterruptor` may clear the queue, but does not count it. -/
theorem SetPc.Step.counts {val : Interrupt} {p : SetPc val} {q : Option (SetPc val)}
    {ts : List Thread} {ev : List Event} (h : p.Step m mac i a q ts ev) : a.counts = false := by
  cases h <;> rfl

/-- `clearThreadsSticky` clears the queue by `dequeue`, and does not count it either. -/
theorem StickyPc.Step.counts {clearType : Interrupt} {p : StickyPc} {q : Option StickyPc}
    (h : p.Step mac clearType a q) : a.counts = false := by
  cases h with
  | dequeue h | dequeued h => exact h.counts
  | wait h | waited h => exact h.counts
  | _ => rfl

/-- No more does `clearThreads`, sticky or not. -/
theorem ClearPc.Step.counts {clearType : Interrupt} {stickyInterrupt : Bool}
    {p : ClearPc stickyInterrupt} {q : Option (ClearPc stickyInterrupt)}
    (h : p.Step pool mac i clearType a q) : a.counts = false := by
  cases h with
  | dequeue h | dequeued h | dequeuedSticky h => exact h.counts
  | wait h | waited h => exact h.counts
  | sticky h | cleared h => exact h.counts
  | _ => rfl

/-- No more does `disableEverything`, which dequeues twice. -/
theorem DisablePc.Step.counts {p : DisablePc} {q : Option DisablePc} (h : p.Step pool mac i a q) :
    a.counts = false := by
  cases h with
  | dequeue h | dequeued h => exact h.counts
  | clear h | cleared h => exact h.counts
  | remove => rfl

/-- A reset thread clears the queue. -/
theorem ResetPc.Step.counts {origin : ThreadId} {p p' : ResetPc} {ev : List Event}
    (h : p.Step pool mac m i origin a p' ev) : a.counts = false := by
  cases h with
  | dequeue h | dequeued h => exact h.counts
  | clear h | cleared h => exact h.counts
  | set h | setDone h => exact h.counts
  | _ => rfl

end Edges

/-- What a step of a thread of macro `m` is to the counter. -/
inductive Thread.CounterStep (mac : Macro) (m : MacroId) : Thread → Access → Thread → Prop
  | limit {t u : Thread} {p : LimitPc} {q : Option LimitPc} {a : Access} (h : p.Step mac a q)
      (ht : t.limitPoint = some p) (hu : u.limitPoint = q)
      (hchecks : u.checks m = true → t.checks m = true) (hrefuse : u ≠ call m (.start .refuse))
      (hstore : ∀ val, u ≠ call m (.storeThreadMax val)) : CounterStep mac m t a u
  | decrement {o : Option ThreadId} :
    CounterStep mac m (worker m o .decrement) .decQueued (worker m o (.limit .clamp))
  | increment :
    CounterStep mac m (call m (.start .increment)) .incQueued (call m (.start (.incLimit .clamp)))
  | noRoom (h : ¬ toUnsigned mac.queued < mac.threadMax) :
    CounterStep mac m (call m (.start .incTest)) .skip (call m (.start .retTest))
  | refused {p : StartPc} (hp : p = .retTest ∨ p = .zeroTest)
      (h : toUnsigned mac.queued > mac.threadMax ∨ mac.queued = 0) :
    CounterStep mac m (call m (.start p)) .skip (call m (.start .refuse))
  | goodThreadMax {val : ℕ} (h : val ≠ 0) :
    CounterStep mac m (call m (.checkThreadMax val)) .skip (call m (.storeThreadMax val))
  | setThreadMax {val : ℕ} :
    CounterStep mac m (call m (.storeThreadMax val)) (.setThreadMax val) (call m (.limit .clamp))
  | assign {other : MacroId} : CounterStep mac m (call m (.copy other .assign)) (.assign other)
      (call m (.copy other (.limit .clamp)))
  | other {t u : Thread} {a : Access} (ha : a.counts = false) (ht : t.limitPoint = none)
      (hrefuse : a = .refuseSlot → t = call m (.start .refuse))
      (hchecks : u.checks m = true → t.checks m = true) (hu : u ≠ call m (.start .refuse))
      (hstore : ∀ val, u ≠ call m (.storeThreadMax val)) : CounterStep mac m t a u

/-- An inner step that neither moves the counter nor begins a check. -/
theorem Thread.CounterStep.inner {mac : Macro} {m : MacroId} {t u : Thread} {a : Access}
    (hin : a.inner = true) (ha : a.counts = false) (ht : t.limitPoint = none)
    (hchecks : u.checks m = true → t.checks m = true) (hu : u ≠ call m (.start .refuse))
    (hstore : ∀ val, u ≠ call m (.storeThreadMax val)) : CounterStep mac m t a u := by
  refine .other ha ht ?_ hchecks hu hstore
  rintro rfl
  cases hin

section Steps

variable {mem : Memory} {m : MacroId} {i : ThreadId} {a : Access} {pool : List Thread}

/-- The steps of a worker count the queue down where it takes an entry, and correct the limit
afterwards. -/
theorem RunPc.Step.counterStep {p p' : RunPc} {ev : List Event} (o : Option ThreadId)
    (h : p.Step mem m i a p' ev) :
    Thread.CounterStep (mem.macros m) m (.worker m o p) a (.worker m o p') := by
  cases h with
  | decrement => exact .decrement
  | limit h | limited h => exact .limit h rfl rfl nofun nofun nofun
  | consumeSet h | consumed h => exact .inner h.inner.1 h.counts rfl nofun nofun nofun
  | pauseWait h | pauseOver h => exact .inner h.inner.1 h.counts rfl nofun nofun nofun
  | notInterrupted h hp =>
    next inLoop p =>
    rcases hp with ⟨rfl, rfl⟩ | ⟨rfl, rfl⟩ <;> cases inLoop <;>
      exact .other rfl rfl nofun nofun nofun nofun
  | _ => exact .other rfl rfl nofun nofun nofun nofun

/-- The steps of a reset thread. -/
theorem ResetPc.Step.counterStep {origin : ThreadId} {p p' : ResetPc} {ev : List Event}
    (h : p.Step pool (mem.macros m) m i origin a p' ev) :
    Thread.CounterStep (mem.macros m) m (.reset m origin p) a (.reset m origin p') :=
  .inner h.inner h.counts rfl nofun nofun nofun

/-- The steps of `start` count the queue up where it adds an entry, and correct the limit
afterwards. -/
theorem StartPc.Step.counterStep {w : ThreadId} {p : StartPc} {q : Option StartPc}
    {ts : List Thread} {ev : List Event} (h : p.Step mem m i w a q ts ev) :
    Thread.CounterStep (mem.macros m) m (.call m (.start p)) a
      (.call m (q.elim .returned .start)) := by
  cases h with
  | noRoom h => exact .noRoom h
  | increment => exact .increment
  | above h => exact .refused (.inl rfl) (.inl h)
  | zero h => exact .refused (.inr rfl) (.inr h)
  | refuse => exact .other rfl rfl (fun _ => rfl) nofun nofun nofun
  | incLimit h | incLimited h =>
    exact .limit h rfl rfl (fun _ => by simp [Thread.checks, StartPc.checks]) nofun nofun
  | limit h | limited h => exact .limit h rfl rfl nofun nofun nofun
  | notAbove =>
    exact .other rfl rfl nofun (by simp [Thread.checks, StartPc.checks]) nofun nofun
  | _ => exact .other rfl rfl nofun nofun nofun nofun

/-- The steps of the other calls. -/
theorem CallPc.Step.counterStep {p p' : CallPc} {ts : List Thread} {ev : List Event}
    (h : p.Step mem pool m i a p' ts ev) :
    Thread.CounterStep (mem.macros m) m (.call m p) a (.call m p') := by
  cases h with
  | start h | started h => exact h.counterStep
  | goodThreadMax h => exact .goodThreadMax fun hval => h (.inl hval)
  | storeThreadMax => exact .setThreadMax
  | limit h | limited h => exact .limit h rfl rfl nofun nofun nofun
  | setInterruptor h | setDone h => exact .inner h.inner.1 h.counts rfl nofun nofun nofun
  | destroy h | destroyed h => exact .inner h.inner h.counts rfl nofun nofun nofun
  | copy h =>
    cases h with
    | assign => exact .assign
    | disable h | disabled h => exact .inner h.inner h.counts rfl nofun nofun nofun
    | limit h | limited h => exact .limit h rfl rfl nofun nofun nofun
    | _ => exact .other rfl rfl nofun nofun nofun nofun
  | copied h => cases h <;> exact .other rfl rfl nofun nofun nofun nofun
  | _ => exact .other rfl rfl nofun nofun nofun nofun

end Steps

/-- **What every step is to the counter.** -/
theorem Thread.Step.counterStep {c : Config Memory Thread} {i : ThreadId} {t : Thread} {mv : Move}
    (h : t.Step c i mv) :
    t.CounterStep (c.shared.macros t.macroId) t.macroId mv.access mv.next := by
  cases h with
  | worker h => exact h.counterStep _
  | reset h => exact h.counterStep
  | call h => exact h.counterStep

/-! ## The invariant -/

/-- What the invariant says of a thread: a start that has yet to accept the queue finds an entry
there, none is refused, and no call stores a limit of 0. -/
structure Thread.CounterOk (m : MacroId) (mac : Macro) (t : Thread) : Prop where
  checked : t.checks m = true → 0 < mac.queued ∧ mac.queued ≤ mac.threadMax
  admitted : t ≠ .call m (.start .refuse)
  stored : ∀ val, t = .call m (.storeThreadMax val) → val ≠ 0

/-- **The invariant**: a queue above its limit is still to be corrected by a thread inside
`limitMaxThreads`. -/
structure CounterInv (m : MacroId) (c : Config Memory Thread) : Prop where
  threadMax : 1 ≤ (c.shared.macros m).threadMax
  nonneg : 0 ≤ (c.shared.macros m).queued
  fits : (c.shared.macros m).queued < 2 ^ 31
  limited : (c.shared.macros m).queued ≤ (c.shared.macros m).threadMax ∨
    ∃ t ∈ c.pool, t.macroId = m ∧ t.limitPoint ≠ none
  threads : ∀ t ∈ c.pool, t.CounterOk m (c.shared.macros m)

section Step

variable {mem mem' : Memory} {m : MacroId} {c : Config Memory Thread} {t u : Thread} {a : Access}

/-- A limit that has been corrected is positive, when the global one is. -/
theorem Macro.clampThreadMax_pos {limit : ℕ} {mac : Macro} (hlimit : limit ≠ 0) :
    1 ≤ (mac.clampThreadMax limit).threadMax := by
  unfold Macro.clampThreadMax
  split_ifs with hzero habove
  · exact Nat.le_refl 1
  · exact Nat.one_le_iff_ne_zero.mpr hlimit
  · exact Nat.one_le_iff_ne_zero.mpr hzero

/-- The correction only lowers a limit that is positive. -/
theorem Macro.clampThreadMax_le (mac : Macro) (limit : ℕ) (h : 1 ≤ mac.threadMax) :
    (mac.clampThreadMax limit).threadMax ≤ mac.threadMax := by
  unfold Macro.clampThreadMax
  split_ifs with hzero habove
  · omega
  · exact Nat.le_of_lt habove
  · exact Nat.le_refl _

/-- **The limit** of a macro stays positive, through every step that keeps to the condition. -/
theorem Thread.CounterStep.threadMax (h : t.CounterStep (c.shared.macros m) m a u)
    (ha : a.apply m c.shared = some mem') (hfits : a.fitsCounter m c = true)
    (hmax : ∀ m, 1 ≤ (c.shared.macros m).threadMax) (hstored : t.CounterOk m (c.shared.macros m)) :
    1 ≤ (mem'.macros m).threadMax := by
  have hafter := Access.apply_threadMax ha
  cases h with
  | limit h =>
    cases h with
    | clamp =>
      rw [hafter]
      -- the clamp may lower the limit to the global one, which is not 0
      have hlimit : c.shared.threadLimit ≠ 0 := by
        simp only [Access.fitsCounter, decide_eq_true_eq] at hfits
        exact hfits.1
      exact Macro.clampThreadMax_pos hlimit
    | _ => rw [hafter]; exact hmax m
  | setThreadMax =>
    rw [hafter]
    exact Nat.one_le_iff_ne_zero.mpr (hstored.stored _ rfl)
  | assign =>
    rw [hafter]
    exact hmax _
  | other hc =>
    rw [(Access.apply_of_not_counts ha hc).2]
    exact hmax m
  | _ => rw [hafter]; exact hmax m

/-- **The counter** stays an `int` from 0 on. -/
theorem Thread.CounterStep.queued (h : t.CounterStep (c.shared.macros m) m a u)
    (ha : a.apply m c.shared = some mem') (hfits : a.fitsCounter m c = true)
    (hnonneg : 0 ≤ (c.shared.macros m).queued) (hlt : (c.shared.macros m).queued < 2 ^ 31) :
    0 ≤ (mem'.macros m).queued ∧ (mem'.macros m).queued < 2 ^ 31 := by
  have hafter := Access.apply_queued ha
  cases h with
  | limit h => cases h <;> rw [hafter] <;> simp only <;> omega
  | decrement =>
    simp only [Access.fitsCounter, decide_eq_true_eq] at hfits
    rw [hafter]
    simp only
    omega
  | increment =>
    simp only [Access.fitsCounter, decide_eq_true_eq] at hfits
    rw [hafter]
    simp only
    omega
  | other hc =>
    rcases (Access.apply_of_not_counts ha hc).1 with hq | hq <;> rw [hq] <;> omega
  | _ => rw [hafter]; exact ⟨hnonneg, hlt⟩

/-- **A queue above its limit** is one that the moving thread has yet to correct, or it was so
before and is left to others. -/
theorem Thread.CounterStep.limited (h : t.CounterStep (c.shared.macros m) m a u)
    (ha : a.apply m c.shared = some mem') (hnonneg : 0 ≤ (c.shared.macros m).queued)
    (hlt : (c.shared.macros m).queued < 2 ^ 31) :
    (mem'.macros m).queued ≤ (mem'.macros m).threadMax ∨ u.limitPoint ≠ none ∨
      t.limitPoint = none ∧ (mem'.macros m).queued = (c.shared.macros m).queued ∧
        (mem'.macros m).threadMax = (c.shared.macros m).threadMax := by
  have hqueued := Access.apply_queued ha
  have hmax := Access.apply_threadMax ha
  have hunsigned := toUnsigned_of_range hnonneg hlt
  cases h with
  | limit h _ hu =>
    cases h with
    | clamp | exceeds => exact .inr (.inl (by rw [hu]; nofun))
    | fits h =>
      -- the test has found it within the limit, as `unsigned` and so as `int`
      refine .inl ?_
      rw [hqueued, hmax]
      simp only
      omega
    | store =>
      refine .inl ?_
      rw [hqueued]
      exact Int.natCast_nonneg _
  | decrement | increment | setThreadMax | assign => exact .inr (.inl nofun)
  | noRoom | goodThreadMax => exact .inr (.inr ⟨rfl, hqueued, hmax⟩)
  | refused hp => rcases hp with rfl | rfl <;> exact .inr (.inr ⟨rfl, hqueued, hmax⟩)
  | other hc ht =>
    obtain ⟨hq | hq, hm⟩ := Access.apply_of_not_counts ha hc
    · exact .inr (.inr ⟨ht, hq, hm⟩)
    · refine .inl ?_
      rw [hq]
      exact Int.natCast_nonneg _

/-- The checks of `start` are made with the mutex held. -/
theorem Thread.holds_of_checks (h : t.checks m = true) : t.holds m = 1 := by
  unfold Thread.checks at h
  split at h
  next m' p =>
    obtain ⟨hp, hm⟩ := Bool.and_eq_true_iff.mp h
    obtain rfl : m' = m := of_decide_eq_true hm
    rw [Thread.holds, Thread.onMacro_call]
    cases p <;> first | rfl | cases hp
  next => cases h

/-- A start that has yet to accept the queue keeps the mutex locked. -/
theorem locked_of_checking
    (hlocked : (c.shared.macros m).locked.toNat = weight (Thread.holds m) c.pool)
    (h : checking m c = true) : (c.shared.macros m).locked = true := by
  obtain ⟨t, ht, hchecks⟩ := List.any_eq_true.mp h
  exact locked_of_holds hlocked ht (Thread.holds_of_checks hchecks)

/-- **A start that has yet to accept the queue** still finds its entry after a step. -/
theorem Thread.CounterStep.checked (h : t.CounterStep (c.shared.macros m) m a u)
    (ha : a.apply m c.shared = some mem') (hfits : a.fitsCounter m c = true)
    (hnonneg : 0 ≤ (c.shared.macros m).queued) (hlt : (c.shared.macros m).queued < 2 ^ 31)
    (hadmitted : t ≠ .call m (.start .refuse)) (hchecking : checking m c = true)
    (hlocked : (c.shared.macros m).locked = true)
    (hentry : 0 < (c.shared.macros m).queued ∧
      (c.shared.macros m).queued ≤ (c.shared.macros m).threadMax) :
    0 < (mem'.macros m).queued ∧ (mem'.macros m).queued ≤ (mem'.macros m).threadMax := by
  have hqueued := Access.apply_queued ha
  have hmax := Access.apply_threadMax ha
  have hunsigned := toUnsigned_of_range hnonneg hlt
  -- what takes the mutex waits for the start
  have hfree : a.guarded = true → False := fun hg => by
    rw [Access.unlocked_of_apply ha hg] at hlocked
    cases hlocked
  cases h with
  | limit h =>
    cases h with
    | clamp =>
      simp only [Access.fitsCounter, decide_eq_true_eq] at hfits
      -- the condition says that the limit is not lowered below the queue
      have hclamped := hfits.2 hchecking
      rw [hqueued, hmax]
      simp only
      omega
    | store => simp [Access.fitsCounter, hchecking] at hfits
    | _ => rw [hqueued, hmax]; exact hentry
  | decrement =>
    simp only [Access.fitsCounter, decide_eq_true_eq] at hfits
    -- the worker takes an entry besides that of the start
    have hmore := hfits.2 hchecking
    rw [hqueued, hmax]
    simp only
    omega
  | increment =>
    simp only [Access.fitsCounter, decide_eq_true_eq] at hfits
    rw [hqueued, hmax]
    simp only
    omega
  | setThreadMax | assign => exact (hfree rfl).elim
  | noRoom | refused | goodThreadMax => rw [hqueued, hmax]; exact hentry
  | other hc ht hrefuse =>
    cases a with
    | incQueued | decQueued | clampThreadMax | setThreadMax | assign => cases hc
    | clearQueued => simp [Access.fitsCounter, hchecking] at hfits
    | refuseSlot => exact absurd (hrefuse rfl) hadmitted
    | storeInterruptor => exact (hfree rfl).elim
    | _ => rw [hqueued, hmax]; exact hentry

/-- **A comparison finds the queue within its limit** when no `limitMaxThreads` is about to reset
it. -/
theorem CounterInv.le_of_noReset (h : CounterInv m c) (hreset : noReset m c = true) :
    (c.shared.macros m).queued ≤ (c.shared.macros m).threadMax := by
  have hunsigned := toUnsigned_of_range h.nonneg h.fits
  rcases h.limited with hle | ⟨t, ht, hm, hpoint⟩
  · exact hle
  obtain ⟨p, hp⟩ := Option.ne_none_iff_exists'.mp hpoint
  have hmax := h.threadMax
  have hall := (of_decide_eq_true (List.all_eq_true.mp hreset t ht)).resolve_left (not_not.mpr hm)
  have hnot : p.resets c.shared.threadLimit (c.shared.macros m) = false := by simpa [hp] using hall
  cases p with
  | clamp =>
    -- the correction does not raise a limit that is positive
    have hclamp := (c.shared.macros m).clampThreadMax_le c.shared.threadLimit hmax
    have := of_decide_eq_false hnot
    omega
  | load =>
    have := of_decide_eq_false hnot
    omega
  | store => cases hnot

/-- **The moving thread** keeps its part of the invariant. -/
theorem Thread.CounterStep.counterOk (h : t.CounterStep (c.shared.macros m) m a u)
    (ha : a.apply m c.shared = some mem') (hfits : a.fitsCounter m c = true)
    (hcompare : t = .call m (.start .incTest) → noReset m c = true) (hinv : CounterInv m c)
    (ht : t ∈ c.pool)
    (hchecked : checking m c = true →
      0 < (mem'.macros m).queued ∧ (mem'.macros m).queued ≤ (mem'.macros m).threadMax) :
    u.CounterOk m (mem'.macros m) := by
  have hqueued := Access.apply_queued ha
  have hmax := Access.apply_threadMax ha
  have hunsigned := toUnsigned_of_range hinv.nonneg hinv.fits
  have hpos := hinv.threadMax
  have hkeeps : t.checks m = true → checking m c = true := fun htc =>
    List.any_eq_true.mpr ⟨t, ht, htc⟩
  cases h with
  | limit h htp hu hchecks hrefuse hstore =>
    exact ⟨fun huc => hchecked (hkeeps (hchecks huc)), hrefuse,
      fun val hval => absurd hval (hstore val)⟩
  | decrement => exact ⟨nofun, nofun, nofun⟩
  | increment =>
    refine ⟨fun _ => ?_, nofun, nofun⟩
    simp only [Access.fitsCounter, decide_eq_true_eq] at hfits
    have hnonneg := hinv.nonneg
    rw [hqueued, hmax]
    simp only
    omega
  | noRoom h =>
    -- the queue is as long as the limit, which is positive
    refine ⟨fun _ => ?_, nofun, nofun⟩
    have hle := hinv.le_of_noReset (hcompare rfl)
    rw [hqueued, hmax]
    simp only
    omega
  | @refused p hp h =>
    -- the start is among those that find an entry
    have htc : (Thread.call m (.start p)).checks m = true := by
      rcases hp with rfl | rfl <;> exact decide_eq_true rfl
    have hentry := (hinv.threads _ ht).checked htc
    omega
  | goodThreadMax h =>
    refine ⟨nofun, nofun, fun val hval => ?_⟩
    cases hval
    exact h
  | setThreadMax | assign => exact ⟨nofun, nofun, nofun⟩
  | other hc htp hrefuse hchecks hu hstore =>
    exact ⟨fun huc => hchecked (hkeeps (hchecks huc)), hu, fun val hval => absurd hval (hstore val)⟩

end Step

/-- A thread of another macro is outside the invariant. -/
theorem Thread.counterOk_of_ne {m : MacroId} {mac : Macro} {t : Thread} (h : t.macroId ≠ m) :
    t.CounterOk m mac := by
  refine ⟨fun hchecks => absurd ?_ h, ?_, ?_⟩
  · unfold checks at hchecks
    split at hchecks
    · exact of_decide_eq_true (Bool.and_eq_true_iff.mp hchecks).2
    · cases hchecks
  · rintro rfl
    exact h rfl
  · rintro val rfl
    exact absurd rfl h

/-- A thread at the start of its function is within the invariant. -/
theorem Thread.counterOk_of_mem_spawned {c : Config Memory Thread} {i : ThreadId} {t u : Thread}
    {mv : Move} {m : MacroId} {mac : Macro} (h : t.Step c i mv) (hu : u ∈ mv.spawned) :
    u.CounterOk m mac := by
  rcases h.of_mem_spawned hu with rfl | rfl <;> exact ⟨nofun, nofun, nofun⟩

section Run

variable {mem : Memory} {m : MacroId} {c : Config Memory Thread} {tr : List Event}

/-- **One step** keeps the invariant, of the macro of the thread that moves. -/
theorem counterInv_step {i : ThreadId} {k : Bool} {t : Thread} {e : Effect Memory Thread Event}
    (hinv : ∀ m, CounterInv m c)
    (hlocked : (c.shared.macros t.macroId).locked.toNat =
      weight (Thread.holds t.macroId) c.pool)
    (hfits : counterFits c (.step i k) = true) (ht : c.pool[i]? = some t)
    (he : program.move c i k t = some e) :
    CounterInv t.macroId ⟨e.shared, c.pool.set i e.next ++ e.spawned⟩ := by
  obtain ⟨mv, hmv, hmap⟩ := Option.bind_eq_some_iff.mp he
  obtain ⟨mem', ha, rfl⟩ := Option.map_eq_some_iff.mp hmap
  have hstep := Thread.step_of_move hmv
  have hcount := hstep.counterStep
  have hmem := List.mem_of_getElem? ht
  have hold := hinv t.macroId
  -- the condition, for this access and for the comparison
  simp only [counterFits, ht, hmv, Option.all_some, Bool.and_eq_true] at hfits
  obtain ⟨hfits, hcompare⟩ := hfits
  obtain ⟨hnonneg, hlt⟩ := hcount.queued ha hfits hold.nonneg hold.fits
  have hchecked : checking t.macroId c = true →
      0 < (mem'.macros t.macroId).queued ∧
        (mem'.macros t.macroId).queued ≤ (mem'.macros t.macroId).threadMax := by
    intro hchecking
    obtain ⟨u, hu, huc⟩ := List.any_eq_true.mp hchecking
    exact hcount.checked ha hfits hold.nonneg hold.fits (hold.threads t hmem).admitted hchecking
      (locked_of_checking hlocked hchecking) ((hold.threads u hu).checked huc)
  constructor
  -- the limit is assigned from other macros as well, so theirs are needed here
  · exact hcount.threadMax ha hfits (fun m => (hinv m).threadMax) (hold.threads t hmem)
  · exact hnonneg
  · exact hlt
  · rcases hcount.limited ha hold.nonneg hold.fits with hle | hpoint | ⟨hpoint, hq, hmax⟩
    · exact .inl hle
    · exact .inr ⟨mv.next, mem_set_append_self _ _ ht, hstep.macroId, hpoint⟩
    · -- it was above before, and the thread that corrects it is another one
      simp only
      rw [hq, hmax]
      rcases hold.limited with hle | ⟨u, hu, hm, hupoint⟩
      · exact .inl hle
      · refine .inr ⟨u, mem_set_append_of_ne _ _ ht hu ?_, hm, hupoint⟩
        rintro rfl
        exact hupoint hpoint
  · refine forall_mem_set_append ?_ ?_ ?_
    · intro u hu
      have huok := hold.threads u hu
      exact ⟨fun huc => hchecked (List.any_eq_true.mpr ⟨u, hu, huc⟩), huok.admitted, huok.stored⟩
    · refine hcount.counterOk ha hfits ?_ hold hmem hchecked
      intro hincTest
      rw [hincTest] at hcompare
      exact hincTest ▸ hcompare
    · exact fun u hu => Thread.counterOk_of_mem_spawned hstep hu

/-- A step leaves the invariant of the other macros alone. -/
theorem counterInv_step_of_ne {i : ThreadId} {k : Bool} {t : Thread}
    {e : Effect Memory Thread Event} (hinv : CounterInv m c) (ht : c.pool[i]? = some t)
    (he : program.move c i k t = some e) (hm : t.macroId ≠ m) :
    CounterInv m ⟨e.shared, c.pool.set i e.next ++ e.spawned⟩ := by
  have hsame := macros_of_ne he hm
  obtain ⟨hnext, hspawned⟩ := macroId_of_ne he hm
  constructor
  · simpa only [hsame] using hinv.threadMax
  · simpa only [hsame] using hinv.nonneg
  · simpa only [hsame] using hinv.fits
  · simp only [hsame]
    rcases hinv.limited with hle | ⟨u, hu, hum, hpoint⟩
    · exact .inl hle
    · refine .inr ⟨u, mem_set_append_of_ne _ _ ht hu ?_, hum, hpoint⟩
      rintro rfl
      exact hm hum
  · simp only [hsame]
    exact forall_mem_set_append hinv.threads (Thread.counterOk_of_ne hnext)
      fun u hu => Thread.counterOk_of_ne (hspawned u hu)

/-- **The invariant holds in every state reached.** -/
theorem counterInv_of_run (hmax : ∀ m, 1 ≤ (mem.macros m).threadMax)
    (hqueued : ∀ m, (mem.macros m).queued = 0) (hfree : ∀ m, (mem.macros m).locked = false)
    (h : program.Run (fun c l => counterFits c l = true) (initial mem) tr c) (m : MacroId) :
    CounterInv m c := by
  have hrun := h.and_invariant (I := fun c => ∀ m,
    (c.shared.macros m).locked.toNat = weight (Thread.holds m) c.pool)
    fun h m => locked_eq_weight m (hfree m) h
  refine Machine.Run.invariant (P := fun _ c => ∀ m, CounterInv m c) ?_ ?_ ?_ hrun m
  · intro m
    have hq := hqueued m
    exact ⟨hmax m, by simp only; omega, by simp only; omega, .inl (by simp only; omega), by simp⟩
  · -- a call is made outside `limitMaxThreads` and before any check
    intro _ c t ev hinv _ he m
    have hold := hinv m
    have hnew : t.CounterOk m (c.shared.macros m) := by
      rcases Thread.entry_cases he with ⟨m', rfl, -⟩ | ⟨m', rfl, -⟩ | ⟨m', pc, rfl, -, hpc⟩
      · exact ⟨nofun, nofun, nofun⟩
      · exact ⟨nofun, nofun, nofun⟩
      · cases hpc <;> exact ⟨nofun, nofun, nofun⟩
    refine ⟨hold.threadMax, hold.nonneg, hold.fits, ?_, ?_⟩
    · rcases hold.limited with hle | ⟨u, hu, hum, hpoint⟩
      · exact .inl hle
      · exact .inr ⟨u, List.mem_append_left _ hu, hum, hpoint⟩
    · exact forall_mem_concat hold.threads hnew
  · rintro _ c i k t e hinv ⟨hfits, hlocked⟩ ht he m
    by_cases hm : t.macroId = m
    · subst hm
      exact counterInv_step hinv (hlocked _) hfits ht he
    · exact counterInv_step_of_ne (hinv m) ht he hm

/-- **The counter stays in range** in every state of a run whose steps find a state they can be
made in: `_threadMax` is positive, `_queued` is not negative and, at each comparison, within
`_threadMax`, and no start is refused on its account. -/
theorem counterInRange (hmax : ∀ m, 1 ≤ (mem.macros m).threadMax)
    (hqueued : ∀ m, (mem.macros m).queued = 0) (hfree : ∀ m, (mem.macros m).locked = false)
    (h : program.Run (fun c l => counterFits c l = true) (initial mem) tr c) (m : MacroId) :
    CounterInRange (fun c l => counterFits c l = true) m c := by
  have hinv := counterInv_of_run hmax hqueued hfree h m
  refine ⟨hinv.threadMax, hinv.nonneg, ?_, fun ht => (hinv.threads _ ht).admitted rfl⟩
  intro i k hfits ht
  simp only [counterFits, ht, Bool.and_eq_true] at hfits
  have hle := hinv.le_of_noReset hfits.2
  have hunsigned := toUnsigned_of_range hinv.nonneg hinv.fits
  omega

end Run

/-- A started macro, up to the decrement of its worker. -/
theorem counterInRange_one : ∃ tr c,
    program.Run (fun c l => counterFits c l = true)
      (initial (.ofMacro { interruptor := .continue, threadMax := 2, signals := [none] })) tr c ∧
      (c.shared.macros 0).threadCount = 1 ∧
      CounterInRange (fun c l => counterFits c l = true) 0 c := by
  obtain ⟨tr, c, h, hcount⟩ := Machine.Run.exists_of_exec counterFits
    (initial (.ofMacro { interruptor := .continue, threadMax := 2, signals := [none] }))
    (spawnOne ++ List.replicate 10 (.step 1 true))
    (M := program) (P := fun _ c => (c.shared.macros 0).threadCount = 1 ∧
      (c.shared.macros 0).queued = 0) (by decide +kernel)
  exact ⟨tr, c, h, (of_decide_eq_true hcount).1,
    counterInRange (fun _ => Nat.le_succ 1) (fun _ => rfl) (fun _ => rfl) h 0⟩

/-- The kinds of calls that move the queue or its limit: `start`, `setThreadMax`,
`setGlobalThreadLimit` and `copy`. -/
def movesCounter : CallKind → Bool
  | .start | .setThreadMax | .setGlobalThreadLimit | .copy => true
  | _ => false

/-- **The counter is -1**: both workers find the one entry that is left, and both take it. -/
theorem not_counterInRange_two : ¬ ∀ mem tr c, (∀ m, 1 ≤ (mem.macros m).threadMax) →
    (∀ m, (mem.macros m).queued = 0) → (∀ m, (mem.macros m).locked = false) →
    program.Run (fun _ l => onlyCalls 0 movesCounter false l) (initial mem) tr c →
    CounterInRange (fun _ l => onlyCalls 0 movesCounter false l) 0 c := by
  intro hall
  obtain ⟨tr, c, h, hqueued⟩ := Machine.Run.exists_of_exec
    (fun _ l => onlyCalls 0 movesCounter false l)
    (initial (.ofMacro { interruptor := .continue, threadMax := 2, signals := [none] }))
    (startTwice 12 ++ List.replicate 21 (.step 1 true) ++ List.replicate 8 (.step 3 true) ++
      [.step 1 true, .step 3 true])
    (M := program) (P := fun _ c => (c.shared.macros 0).queued = -1) (by decide +kernel)
  have hrange := (hall _ tr c (fun _ => Nat.le_succ 1) (fun _ => rfl) (fun _ => rfl) h).queued
  rw [of_decide_eq_true hqueued] at hrange
  exact absurd hrange (by decide)

end Libmacro
