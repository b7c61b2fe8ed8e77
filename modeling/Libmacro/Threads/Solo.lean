import Libmacro.Interleaving.Attains
import Libmacro.Threads.FailedStart
import Libmacro.Threads.PausedShutdown

/-! # One thread at work

The steps of a thread when all others have ended, one lemma for each function: what the program
comes to from the function's first point is what it comes to from the point after it, in the memory
that the function leaves. A function that is called from several places is passed as `wrap`, its
points inside the caller, and `ret`, the point after the call.

Nothing fails here: threads can be created, signals do not throw, and no wait is woken for
nothing. -/

namespace Libmacro

open Interleaving

/-- What a client sees of a run: the signals that are delivered, pass by pass, and what a call
throws. -/
inductive Shown where
  /-- A worker of macro `m` begins a pass over its signals. -/
  | pass (m : MacroId)
  /-- Macro `m` delivers a signal, to a dispatcher or by `send`. -/
  | delivered (m : MacroId) (signalPtr : SignalId) (via : Option DispatcherId)
  /-- A call throws. -/
  | threw (error : Option Error)
  deriving DecidableEq, Repr

/-- What an event shows to the outside: the passes, the deliveries and the errors. -/
def Event.shown : Event → Option Shown
  | pass m _ => some (.pass m)
  | deliver m _ s via => some (.delivered m s via)
  | threw _ error => some (.threw error)
  | _ => none

/-- The choice is the usual outcome. -/
def NothingFails (_ : Config Memory Thread) (_ : ThreadId) (k : Bool) : Prop := k = true

/-- The program comes to `P`, with `s` shown so far. -/
abbrev Comes (P : List Shown → Config Memory Thread → Prop) :
    List Shown → Config Memory Thread → Prop :=
  program.Attains Event.shown NothingFails P

section Solo

variable {P : List Shown → Config Memory Thread → Prop} {s : List Shown} {mem mem' : Memory}
  {m : MacroId} {old : List Thread}

/-- **A step of the one thread at work**, which creates no thread: the program comes to `P` if it
does from the state after the step. -/
theorem comes_of_move (hold : ∀ t ∈ old, t.ended = true) {t u : Thread} {a : Access}
    {ev : List Event} (hm : t.macroId = m)
    (hmove : t.move ⟨mem, old ++ [t]⟩ old.length true = some ⟨a, u, [], ev⟩)
    (ha : a.apply m mem = some mem')
    (h : Comes P (s ++ ev.filterMap Event.shown) ⟨mem', old ++ [u]⟩) :
    Comes P s ⟨mem, old ++ [t]⟩ := by
  subst hm
  refine .of_only (i := old.length) (t := t) (e := ⟨mem', u, [], ev⟩) (by simp) ?_ ⟨true, rfl⟩ ?_ ?_
  · intro j v k hj _ hv
    rcases getElem?_concat_cases hv with hv | ⟨rfl, -⟩
    · exact move_of_ended (hold v (List.mem_of_getElem? hv))
    · exact absurd rfl hj
  · rintro k rfl
    simp only [program, hmove, Option.bind_some, ha, Option.map_some]
  · simpa using h

/-- A step that shows nothing changes only what comes next. -/
theorem comes_of_silent (hold : ∀ t ∈ old, t.ended = true) {t u : Thread} {a : Access}
    (hm : t.macroId = m) (hmove : t.move ⟨mem, old ++ [t]⟩ old.length true = some ⟨a, u, [], []⟩)
    (ha : a.apply m mem = some mem') (h : Comes P s ⟨mem', old ++ [u]⟩) :
    Comes P s ⟨mem, old ++ [t]⟩ :=
  comes_of_move hold hm hmove ha (by simpa using h)

/-! ## The functions that are called from several places -/

/-- `limitMaxThreads`, run by the one thread that can move, wherever it is called. -/
theorem comes_limitMaxThreads (wrap : LimitPc → Thread) (ret : Thread)
    (hold : ∀ t ∈ old, t.ended = true) (hm : ∀ p, (wrap p).macroId = m)
    (hmove : ∀ c i p, (wrap p).move c i true = some (p.move (c.shared.macros m)
      (fun p a => ⟨a, wrap p, [], []⟩) fun a => ⟨a, ret, [], []⟩))
    (h : Comes P s ⟨mem.modify m (Macro.limitMaxThreads mem.threadLimit), old ++ [ret]⟩) :
    Comes P s ⟨mem, old ++ [wrap .clamp]⟩ := by
  refine comes_of_silent (u := wrap .load) hold (hm _) (hmove ..) rfl ?_
  by_cases hlimit : toUnsigned ((mem.macros m).clampThreadMax mem.threadLimit).queued >
      ((mem.macros m).clampThreadMax mem.threadLimit).threadMax
  · refine comes_of_silent (u := wrap .store) (a := .skip) hold (hm _) ?_ rfl ?_
    · rw [hmove]
      simp only [LimitPc.move, Memory.modify_macros_self, if_pos hlimit]
    refine comes_of_silent (u := ret) hold (hm _) (hmove ..) (congrArg some ?_) h
    rw [Memory.modify_modify]
    exact mem.modify_congr m (if_pos hlimit).symm
  · refine comes_of_silent (u := ret) (a := .skip) hold (hm _) ?_ (congrArg some ?_) h
    · rw [hmove]
      simp only [LimitPc.move, Memory.modify_macros_self, if_neg hlimit]
    · exact mem.modify_congr m (if_neg hlimit).symm

/-- `dequeue(val)`, run by the one thread that can move, wherever it is called. -/
theorem comes_dequeue {val : Interrupt} (wrap : DequeuePc → Thread) (ret : Thread)
    (hold : ∀ t ∈ old, t.ended = true) (hm : ∀ p, (wrap p).macroId = m)
    (hmove : ∀ c i p, (wrap p).move c i true =
      some (p.move val (fun p a => ⟨a, wrap p, [], []⟩) fun a => ⟨a, ret, [], []⟩))
    (h : Comes P s ⟨mem.modify m (Macro.dequeue val), old ++ [ret]⟩) :
    Comes P s ⟨mem, old ++ [wrap .queued]⟩ := by
  refine comes_of_silent (u := wrap .interruptor) hold (hm _) (hmove ..) rfl ?_
  refine comes_of_silent (u := wrap .notify) hold (hm _) (hmove ..) rfl ?_
  refine comes_of_silent (u := ret) hold (hm _) (hmove ..) (congrArg some ?_) h
  rw [Memory.modify_modify, Memory.modify_modify]
  rfl

/-- The join of a handle whose thread has ended, or of the own one. -/
theorem joins_of_ended (hold : ∀ t ∈ old, t.ended = true) (t : Thread) (w : ThreadId) :
    w = old.length ∨ (old ++ [t])[w]?.all Thread.ended = true := by
  rcases Nat.lt_trichotomy w old.length with hw | rfl | hw
  · right
    simp [List.getElem?_append_left hw, hw, hold]
  · exact .inl rfl
  · right
    rw [List.getElem?_eq_none (by simp only [List.length_append, List.length_singleton]; omega)]
    rfl

/-- `clearThreads(clearType, true)` of a macro that does not run, and whose old threads have ended:
it waits for nobody. -/
theorem comes_clearThreads {val : Interrupt} (wrap : ClearPc true → Thread) (ret : Thread)
    (hold : ∀ t ∈ old, t.ended = true) (hidle : (mem.macros m).threadCount = 0)
    (hm : ∀ p, (wrap p).macroId = m)
    (hmove : ∀ c i p, (wrap p).move c i true = p.move c.pool (c.shared.macros m) i true val
      (fun p a => ⟨a, wrap p, [], []⟩) fun a => ⟨a, ret, [], []⟩)
    (h : Comes P s ⟨mem.modify m fun mac => { mac.dequeue val with threads := [] },
      old ++ [ret]⟩) :
    Comes P s ⟨mem, old ++ [wrap (.dequeue .queued)]⟩ := by
  refine comes_dequeue (fun p => wrap (.dequeue p)) (wrap (.sticky rfl .runningTest)) hold
    (fun p => hm (.dequeue p))
    (fun c i p => hmove c i (.dequeue p)) ?_
  -- nothing is running: `clearThreadsSticky` does not wait
  have hstopped : ((mem.modify m (Macro.dequeue val)).macros m).running = false := by
    simp [Macro.dequeue, Macro.running, hidle]
  refine comes_of_silent (u := wrap (.sticky rfl (.finalTest false))) (a := .skip) hold (hm _) ?_
    rfl ?_
  · simp only [hmove, ClearPc.move, StickyPc.move, hstopped]
    rfl
  refine comes_of_silent (u := wrap .joinAll) (a := .skip) hold (hm _) ?_ rfl ?_
  · simp only [hmove, ClearPc.move, StickyPc.move, hstopped]
    rfl
  refine comes_of_silent (u := wrap (.join (mem.macros m).threads)) (a := .skip) hold (hm _) ?_
    rfl ?_
  · simp only [hmove, ClearPc.move, Memory.modify_macros_self]
    rfl
  -- every thread has ended, so each handle is joined at once
  generalize (mem.macros m).threads = handles
  induction handles with
  | nil =>
    refine comes_of_silent (u := ret) hold (hm _) (hmove ..) (congrArg some ?_) h
    rw [Memory.modify_modify]
  | cons w rest ih =>
    refine comes_of_silent (u := wrap (.join rest)) (a := .skip) hold (hm _) ?_ rfl ih
    rw [hmove]
    exact if_pos (joins_of_ended hold _ w)

/-- `disableEverything` of a macro that does not run ends in what `Memory.disableEverything`
computes. -/
theorem comes_disableEverything (wrap : DisablePc → Thread) (ret : Thread)
    (hold : ∀ t ∈ old, t.ended = true) (hidle : (mem.macros m).threadCount = 0)
    (hm : ∀ p, (wrap p).macroId = m)
    (hmove : ∀ c i p, (wrap p).move c i true = p.move c.pool (c.shared.macros m) i true
      (fun p a => ⟨a, wrap p, [], []⟩) fun a => ⟨a, ret, [], []⟩)
    (hdisable : mem.disableEverything m = some mem') (h : Comes P s ⟨mem', old ++ [ret]⟩) :
    Comes P s ⟨mem, old ++ [wrap (.dequeue .queued)]⟩ := by
  obtain ⟨reg, hreg, hmem'⟩ := Option.bind_eq_some_iff.mp hdisable
  have hremove : Access.removeDispatch.apply m (mem.modify m (Macro.dequeue .disable)) =
      some { mem.modify m (Macro.dequeue .disable) with dispatchers := reg } :=
    congrArg (Option.map _) hreg
  refine comes_dequeue (fun p => wrap (.dequeue p)) (wrap .remove) hold (fun p => hm (.dequeue p))
    (fun c i p => hmove c i (.dequeue p)) ?_
  refine comes_of_silent (u := wrap (.clear (.dequeue .queued))) hold (hm _) (hmove ..) hremove ?_
  have hidle' : (({ mem.modify m (Macro.dequeue .disable) with dispatchers := reg } :
      Memory).macros m).threadCount = 0 := by
    simpa [Macro.dequeue] using hidle
  refine comes_clearThreads (fun p => wrap (.clear p)) ret hold hidle' (fun p => hm (.clear p))
    (fun c i p => hmove c i (.clear p)) ?_
  -- no worker is counted, so `clearThreads` gives no slot back
  have hcleared : (({ mem.modify m (Macro.dequeue .disable) with dispatchers := reg } :
      Memory).modify m fun mac => { mac.dequeue .disable with threads := [] }) = mem' := by
    rw [← Option.some.inj hmem', Memory.clearThreads, hidle', Nat.sub_zero]
    refine Memory.modify_congr _ m ?_
    have hstopped : (Macro.dequeue .disable (({ mem.modify m (Macro.dequeue .disable) with
        dispatchers := reg } : Memory).macros m)).running = false := by
      simpa [Macro.running, Macro.dequeue] using hidle
    rw [Macro.stopWorkers, hstopped]
    simp [Macro.dequeue, hidle]
  rw [hcleared]
  exact h

/-- The store of `setInterruptor` shows nothing to a client: its events are about `INTERRUPT_ALL`.
-/
theorem filterMap_storeEvents (val : Interrupt) (mac : Macro) (i : ThreadId) :
    (storeEvents m val mac i).filterMap Event.shown = [] := by
  unfold storeEvents
  split_ifs <;> rfl

/-- `setInterruptor(val)`, after its range check, on a macro that does not run. -/
theorem comes_setInterruptor (hold : ∀ t ∈ old, t.ended = true)
    (hfree : (mem.macros m).locked = false) (hidle : (mem.macros m).threadCount = 0)
    {val : Interrupt} {spawnResetThread : Bool}
    (hset : mem.setInterruptor m val = some (mem', spawnResetThread))
    (h : Comes P s ⟨mem', old ++ [.call m .returned]⟩) :
    Comes P s ⟨mem, old ++ [.call m (.setInterruptor val .readPrev)]⟩ := by
  refine comes_of_silent hold rfl (a := .skip)
    (u := .call m (.setInterruptor val (.compare (mem.macros m).interruptor))) rfl rfl ?_
  by_cases hval : val = (mem.macros m).interruptor
  · obtain ⟨rfl, -⟩ : mem = mem' ∧ false = spawnResetThread := by
      simpa [Memory.setInterruptor, hval] using hset
    refine comes_of_silent (a := .skip) hold rfl ?_ rfl h
    simp [Thread.move, CallPc.move, SetPc.move, hval]
  refine comes_of_silent hold rfl (a := .skip)
    (u := .call m (.setInterruptor val (.store (mem.macros m).interruptor))) ?_ rfl ?_
  · simp [Thread.move, CallPc.move, SetPc.move, hval]
  obtain ⟨hstore, -⟩ := setInterruptor_eq_some hval hset
  have hstopped : (mem.macros m).running = false := by
    simp [Macro.running, hidle]
  have ha : Access.apply m mem (.storeInterruptor val) =
      some (mem.modify m fun mac => (mac.storeInterruptor val).1) :=
    Access.apply_of_unlocked hfree rfl
  by_cases hd : (mem.macros m).interruptor = .disable ∨ val = .disable
  -- `DISABLE` is crossed: the dispatch is applied after the store
  · rw [if_pos hd] at hstore
    have hmove : Thread.move ⟨mem, old ++ [.call m (.setInterruptor val
        (.store (mem.macros m).interruptor))]⟩ old.length true
        (.call m (.setInterruptor val (.store (mem.macros m).interruptor))) =
          some ⟨.storeInterruptor val,
            .call m (.setInterruptor val (.apply false fun h => absurd h Bool.false_ne_true)), [],
            storeEvents m val (mem.macros m) old.length⟩ := by
      simp [Thread.move, CallPc.move, SetPc.move, hd, hstopped]
    refine comes_of_move hold rfl hmove ha ?_
    rw [filterMap_storeEvents, List.append_nil]
    refine comes_of_silent hold rfl (a := .block .applyDispatch) rfl
      (Access.apply_of_unlocked ?_ hstore) h
    simpa using hfree
  -- the store is all
  · rw [if_neg hd] at hstore
    obtain rfl := Option.some.inj hstore
    have hmove : Thread.move ⟨mem, old ++ [.call m (.setInterruptor val
        (.store (mem.macros m).interruptor))]⟩ old.length true
        (.call m (.setInterruptor val (.store (mem.macros m).interruptor))) =
          some ⟨.storeInterruptor val, .call m .returned, [],
            storeEvents m val (mem.macros m) old.length⟩ := by
      simp [Thread.move, CallPc.move, SetPc.move, hd, hidle]
    refine comes_of_move hold rfl hmove ha ?_
    rwa [filterMap_storeEvents, List.append_nil]

/-- `copy(other)` to a macro that does not run ends in what `Memory.copy` computes. -/
theorem comes_copy (hold : ∀ t ∈ old, t.ended = true) (hfree : (mem.macros m).locked = false)
    (hidle : (mem.macros m).threadCount = 0) {other : MacroId}
    (hcopy : mem.copy m other = some mem') (h : Comes P s ⟨mem', old ++ [.call m .returned]⟩) :
    Comes P s ⟨mem, old ++ [.call m (.copy other .selfTest)]⟩ := by
  by_cases hself : m = other
  · rw [Memory.copy, if_pos hself] at hcopy
    obtain rfl := Option.some.inj hcopy
    refine comes_of_silent hold rfl (a := .skip) (u := .call m .returned) ?_ rfl h
    simp [Thread.move, CallPc.move, CopyPc.move, hself]
  rw [Memory.copy, if_neg hself] at hcopy
  obtain ⟨mem₁, hdisable, hcopy⟩ := Option.bind_eq_some_iff.mp hcopy
  refine comes_of_silent hold rfl (a := .skip)
    (u := .call m (.copy other (.disable (.dequeue .queued)))) ?_ rfl ?_
  · simp [Thread.move, CallPc.move, CopyPc.move, hself]
  refine comes_disableEverything (fun p => .call m (.copy other (.disable p))) _ hold hidle
    (fun _ => rfl) (fun _ _ _ => rfl) hdisable ?_
  -- disabling leaves the mutex free
  have hfree₁ : (mem₁.macros m).locked = false := by
    obtain ⟨reg, -, hmem₁⟩ := Option.bind_eq_some_iff.mp hdisable
    obtain ⟨n, hn⟩ := @MacroCall.macros_disableEverything mem m reg
    rw [← Option.some.inj hmem₁, hn]
    exact hfree
  have hfree₂ : (((mem₁.copyFrom m other).modify m
      (Macro.limitMaxThreads (mem₁.copyFrom m other).threadLimit)).macros m).locked = false := by
    obtain ⟨n, q, hlimit⟩ := Macro.limitMaxThreads_frame (mem₁.copyFrom m other).threadLimit
      ((mem₁.copyFrom m other).macros m)
    rw [Memory.modify_macros_self, hlimit, MacroCall.macros_copyFrom]
    exact hfree₁
  refine comes_of_silent (m := m) hold rfl (a := .assign other)
    (u := .call m (.copy other (.limit .clamp))) rfl (Access.apply_of_unlocked hfree₁ rfl) ?_
  refine comes_limitMaxThreads (m := m) (fun p => .call m (.copy other (.limit p))) _ hold
    (fun _ => rfl) (fun _ _ _ => rfl) ?_
  exact comes_of_silent (m := m) hold rfl (a := .block .applyDispatch) rfl
    (Access.apply_of_unlocked hfree₂ hcopy) h

end Solo

end Libmacro
