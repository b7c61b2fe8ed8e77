import Libmacro.Threads.Steps

/-! # Runs of the program

Facts about every step that the invariants share: a thread keeps its macro, a step leaves the
fields of other macros alone, and new threads are fresh workers and fresh reset threads.

`Thread.onMacro` turns a number given to the program points into a weight of threads that
counts the threads of one macro only. -/

namespace Libmacro

open Interleaving

/-- The configuration in which no call has been made yet: the memory, and no thread. -/
abbrev initial (mem : Memory) : Config Memory Thread := ⟨mem, []⟩

/-- The macro an event is about; an exception is about a call only. -/
def Event.macroId? : Event → Option MacroId
  | start m | spawn m _ | pass m _ | deliver m _ _ _ | consumed m _ | interruptAll m _
  | resumed m _ => some m
  | threw _ _ => none

/-- The event is one that a worker shows in `run`: a pass, a delivery or a consumed interrupt. -/
def Event.ofRun : Event → Bool
  | pass _ _ | deliver _ _ _ _ | consumed _ _ => true
  | _ => false

namespace Thread

variable {c : Config Memory Thread} {i : ThreadId} {t : Thread} {mv : Move}

/-- A thread stays with its macro. -/
theorem Step.macroId (h : t.Step c i mv) : mv.next.macroId = t.macroId := by
  cases h <;> rfl

/-- **Who creates threads**: a spawn in `start` creates a worker, the end of
`setInterruptor(INTERRUPT_ALL)` a reset thread, and no other step creates any. -/
theorem Step.spawned_cases (h : t.Step c i mv) : mv.spawned = [] ∨
    (∃ m, t = .call m (.start .spawn) ∧ mv = ⟨.pushThread c.pool.length, .call m (.start .leave),
      [.worker m (some i) .count], [.spawn m c.pool.length]⟩) ∨
    ∃ m val, ∃ h : val = Interrupt.interruptAll,
      t = .call m (.setInterruptor val (.spawnReset h)) ∧
      mv = ⟨.skip, .call m .returned, [.reset m i .readPrev], []⟩ := by
  cases h with
  | worker | reset => exact .inl rfl
  | call h =>
    cases h with
    | start h =>
      cases h with
      | spawn => exact .inr (.inl ⟨_, rfl, rfl⟩)
      | _ => exact .inl rfl
    | setDone h =>
      cases h with
      | spawnReset => exact .inr (.inr ⟨_, _, _, rfl, rfl⟩)
      | _ => exact .inl rfl
    | setInterruptor h => cases h <;> exact .inl rfl
    | started h => cases h <;> exact .inl rfl
    | _ => exact .inl rfl

/-- The threads a step creates stand at the start of their function, and belong to the macro of
the thread that creates them. -/
theorem Step.of_mem_spawned (h : t.Step c i mv) {u : Thread} (hu : u ∈ mv.spawned) :
    u = .worker t.macroId (some i) .count ∨ u = .reset t.macroId i .readPrev := by
  rcases h.spawned_cases with hs | ⟨m, rfl, rfl⟩ | ⟨m, val, h, rfl, rfl⟩
  · rw [hs] at hu
    cases hu
  · exact .inl (List.mem_singleton.mp hu)
  · exact .inr (List.mem_singleton.mp hu)

/-- The threads that emit events, each with the events that it emits at that point. -/
inductive Emits (c : Config Memory Thread) (i : ThreadId) : Thread → List Event → Prop
  | pass {m : MacroId} {o : Option ThreadId} :
    Emits c i (worker m o .dispatchSignals) [.pass m i]
  | deliver {m : MacroId} {o : Option ThreadId} {s : SignalId} {rest : List (Option SignalId)} :
    Emits c i (worker m o (.deliver (some s) rest)) [.deliver m i s (c.shared.dispatcherPtr s)]
  | consumed {m : MacroId} {o : Option ThreadId} {inLoop : Bool} {p : SetPc .continue} :
    Emits c i (worker m o (.consume inLoop (.set p))) [.consumed m i]
  | spawn {m : MacroId} : Emits c i (call m (.start .spawn)) [.spawn m c.pool.length]
  | interruptAll {m : MacroId} {prev : Interrupt} :
    Emits c i (call m (.setInterruptor .interruptAll (.store prev)))
      (.interruptAll m i :: if (c.shared.macros m).running then [] else [.resumed m i])
  | resumed {m : MacroId} {o : ThreadId} {p : SetPc .continue} :
    Emits c i (reset m o (.set p)) [.resumed m o]
  | threw {m : MacroId} {pc : CallPc} {error : Option Error} :
    Emits c i (call m pc) [.threw i error]

/-- **Who emits events**: a step that emits any is on the list. -/
theorem Step.emits (h : t.Step c i mv) : mv.events = [] ∨ t.Emits c i mv.events := by
  cases h with
  | worker h =>
    cases h with
    | dispatchSignals => exact .inr .pass
    | deliver => exact .inr .deliver
    | consumed => exact .inr .consumed
    | _ => exact .inl rfl
  | reset h =>
    cases h with
    | set | setDone =>
      simp only
      split_ifs
      · exact .inr .resumed
      · exact .inl rfl
    | _ => exact .inl rfl
  | call h =>
    cases h with
    | start h =>
      cases h with
      | spawn => exact .inr .spawn
      | _ => exact .inl rfl
    | started h => cases h <;> exact .inl rfl
    -- the store of `INTERRUPT_ALL` is seen, that of another value is not
    | @setInterruptor val _ _ _ _ _ h =>
      cases h with
      | storeApply | storeReset =>
        cases val with
        | interruptAll => exact .inr .interruptAll
        | _ => exact .inl rfl
      | _ => exact .inl rfl
    | @setDone val _ _ _ _ h =>
      cases h with
      | storeDone =>
        cases val with
        | interruptAll => exact .inr .interruptAll
        | _ => exact .inl rfl
      | spawnFails => exact .inr .threw
      | _ => exact .inl rfl
    | @block b =>
      cases hb : b.error _ c.shared with
      | none => exact .inl rfl
      | some error => exact .inr (by simpa [hb] using Emits.threw)
    | outOfRange | nullName | badThreadMax => exact .inr .threw
    | _ => exact .inl rfl

/-- A thread's events are about its macro. -/
theorem Emits.macroId {evs : List Event} (h : t.Emits c i evs) {m : MacroId} {ev : Event}
    (hev : ev ∈ evs) (hm : ev.macroId? = some m) : t.macroId = m := by
  cases h with
  -- its store may be followed by the event that it is over
  | interruptAll =>
    rcases List.mem_cons.mp hev with rfl | hev
    · exact Option.some.inj hm
    · split_ifs at hev
      · cases hev
      · obtain rfl := List.mem_singleton.mp hev
        exact Option.some.inj hm
  | threw =>
    obtain rfl := List.mem_singleton.mp hev
    cases hm
  | _ =>
    obtain rfl := List.mem_singleton.mp hev
    exact Option.some.inj hm

/-- Events about macro `m` come from its threads only. -/
theorem Step.countP_events_of_ne (h : t.Step c i mv) {m : MacroId} {p : Event → Bool}
    (hp : ∀ ev, p ev = true → ev.macroId? = some m) (hm : t.macroId ≠ m) :
    mv.events.countP p = 0 := by
  refine List.countP_eq_zero.mpr fun ev hev hpev => ?_
  rcases h.emits with hnone | hemits
  · rw [hnone] at hev
    cases hev
  · exact hm (hemits.macroId hev (hp ev hpev))

/-- The thread executes `run`, as a worker or called by a client. -/
def isWorker : Thread → Bool
  | worker _ _ _ => true
  | _ => false

/-- **Only workers run**: a reset thread or a client call emits none of the events of `run`. -/
theorem Step.countP_events_of_not_worker (h : t.Step c i mv) {p : Event → Bool}
    (hp : ∀ ev, p ev = true → ev.ofRun = true) (hw : t.isWorker = false) :
    mv.events.countP p = 0 := by
  refine List.countP_eq_zero.mpr fun ev hev hpev => ?_
  have hrun := hp ev hpev
  rcases h.emits with hnone | hemits
  · rw [hnone] at hev
    cases hev
  · generalize mv.events = evs at hev hemits
    cases hemits with
    | pass | deliver | consumed => cases hw
    | interruptAll =>
      rcases List.mem_cons.mp hev with rfl | hev
      · cases hrun
      · split_ifs at hev
        · cases hev
        · obtain rfl := List.mem_singleton.mp hev
          cases hrun
    | _ =>
      obtain rfl := List.mem_singleton.mp hev
      cases hrun

/-- A number for the program points of each kind of thread, as a weight of threads that counts
those of macro `m`. -/
def onMacro (m : MacroId) (worker : Option ThreadId → RunPc → ℕ) (reset : ResetPc → ℕ)
    (call : CallPc → ℕ) : Thread → ℕ
  | .worker m' origin pc => if m' = m then worker origin pc else 0
  | .reset m' _ pc => if m' = m then reset pc else 0
  | .call m' pc => if m' = m then call pc else 0

section

variable {m : MacroId} {fw : Option ThreadId → RunPc → ℕ} {fr : ResetPc → ℕ} {fc : CallPc → ℕ}

/-- Threads of other macros have no weight. -/
theorem onMacro_of_ne (h : t.macroId ≠ m) : t.onMacro m fw fr fc = 0 := by
  cases t <;> simp_all [onMacro]

/-- A measure of the threads of one macro, at a worker of it. -/
@[simp] theorem onMacro_worker (o : Option ThreadId) (pc : RunPc) :
    (worker m o pc).onMacro m fw fr fc = fw o pc := if_pos rfl

/-- The same measure at a reset thread of it. -/
@[simp] theorem onMacro_reset (o : ThreadId) (pc : ResetPc) :
    (reset m o pc).onMacro m fw fr fc = fr pc := if_pos rfl

/-- The same measure at a call on it. -/
@[simp] theorem onMacro_call (pc : CallPc) : (call m pc).onMacro m fw fr fc = fc pc := if_pos rfl

/-- The threads a step creates have no weight, when a new worker and a new reset thread have
none. -/
theorem Step.weight_spawned (h : t.Step c i mv) (hw : ∀ o, fw o .count = 0)
    (hr : fr .readPrev = 0) : weight (onMacro m fw fr fc) mv.spawned = 0 := by
  rw [weight_eq_zero_iff]
  intro u hu
  rcases h.of_mem_spawned hu with rfl | rfl
  · simp only [onMacro, hw, ite_self]
  · simp only [onMacro, hr, ite_self]

end

/-- The points at which the client calls begin, `start` and a direct `run` apart. -/
inductive Entry : CallPc → Prop
  | checkInterruptor (val : ℤ) : Entry (.checkInterruptor val)
  | checkName (val : Option String) : Entry (.checkName val)
  | block (b : Block) : Entry (.block b)
  | checkThreadMax (val : ℕ) : Entry (.checkThreadMax val)
  | setContext (ctx : Option ContextId) : Entry (.setContext ctx)
  | setGlobalThreadLimit (val : ℕ) : Entry (.setGlobalThreadLimit val)
  | copy (other : MacroId) : Entry (.copy other .selfTest)
  | destroy : Entry (.destroy (.dequeue .queued))

/-- **The threads a client creates**: a direct `run`, a `start`, or another call. -/
theorem entry_cases {ev : List Event} (h : t.entry = some ev) :
    (∃ m, t = worker m none .count ∧ ev = []) ∨
      (∃ m, t = call m (.start .lock) ∧ ev = [.start m]) ∨
      ∃ m pc, t = call m pc ∧ ev = [] ∧ Entry pc := by
  unfold entry at h
  split at h <;> cases h
  · exact .inl ⟨_, rfl, rfl⟩
  · exact .inr (.inl ⟨_, rfl, rfl⟩)
  all_goals exact .inr (.inr ⟨_, _, rfl, rfl, by constructor⟩)

/-- The thread of a client's call has no weight, when the points at which the calls begin have
none. -/
theorem onMacro_of_entry {m : MacroId} {fw : Option ThreadId → RunPc → ℕ} {fr : ResetPc → ℕ}
    {fc : CallPc → ℕ} {ev : List Event} (h : t.entry = some ev) (hw : fw none .count = 0)
    (hs : fc (.start .lock) = 0) (hc : ∀ pc, Entry pc → fc pc = 0) :
    t.onMacro m fw fr fc = 0 := by
  rcases entry_cases h with ⟨m', rfl, -⟩ | ⟨m', rfl, -⟩ | ⟨m', pc, rfl, -, hpc⟩
  · simp only [onMacro, hw, ite_self]
  · simp only [onMacro, hs, ite_self]
  · simp only [onMacro, hc pc hpc, ite_self]

end Thread

/-- A step leaves the fields of the other macros alone. -/
theorem macros_of_ne {c : Config Memory Thread} {i : ThreadId} {k : Bool} {t : Thread}
    {e : Effect Memory Thread Event} {m : MacroId} (h : program.move c i k t = some e)
    (hm : t.macroId ≠ m) : e.shared.macros m = c.shared.macros m := by
  obtain ⟨a, -, ha⟩ := step_of_program_move h
  exact a.apply_macros_of_ne ha (Ne.symm hm)

/-- A step leaves the threads of the other macros to their macros. -/
theorem macroId_of_ne {c : Config Memory Thread} {i : ThreadId} {k : Bool} {t : Thread}
    {e : Effect Memory Thread Event} {m : MacroId} (h : program.move c i k t = some e)
    (hm : t.macroId ≠ m) : e.next.macroId ≠ m ∧ ∀ u ∈ e.spawned, u.macroId ≠ m := by
  obtain ⟨a, hs, -⟩ := step_of_program_move h
  refine ⟨by rwa [show e.next.macroId = t.macroId from hs.macroId], fun u hu => ?_⟩
  rcases hs.of_mem_spawned hu with rfl | rfl <;> exact hm

/-- A step does not move the weight of another macro's threads. -/
theorem weight_onMacro_of_ne {c : Config Memory Thread} {i : ThreadId} {k : Bool} {t : Thread}
    {e : Effect Memory Thread Event} {m : MacroId} {fw : Option ThreadId → RunPc → ℕ}
    {fr : ResetPc → ℕ} {fc : CallPc → ℕ} (ht : c.pool[i]? = some t)
    (h : program.move c i k t = some e) (hm : t.macroId ≠ m) :
    weight (Thread.onMacro m fw fr fc) (c.pool.set i e.next ++ e.spawned) =
      weight (Thread.onMacro m fw fr fc) c.pool := by
  obtain ⟨hnext, hspawned⟩ := macroId_of_ne h hm
  have hzero : weight (Thread.onMacro m fw fr fc) e.spawned = 0 :=
    weight_eq_zero_iff.mpr fun u hu => Thread.onMacro_of_ne (hspawned u hu)
  have hpool := weight_set_append (Thread.onMacro m fw fr fc) e.next e.spawned ht
  rw [Thread.onMacro_of_ne hm, Thread.onMacro_of_ne hnext, hzero] at hpool
  exact hpool

/-- **A field that counts threads.** A number `g` read from macro `m` that starts as a weight of
the threads of `m`, and that each of their steps changes by the weight it moves, is that weight
in every state reached. -/
theorem counter_eq_onMacro {allowed : Config Memory Thread → Label Thread Bool → Prop}
    {c₀ c : Config Memory Thread} {tr : List Event} {m : MacroId} {g : Macro → ℕ}
    {fw : Option ThreadId → RunPc → ℕ} {fr : ResetPc → ℕ} {fc : CallPc → ℕ}
    (hinit : g (c₀.shared.macros m) = weight (Thread.onMacro m fw fr fc) c₀.pool)
    (hcall : ∀ c t ev, allowed c (.call t) → t.entry = some ev → t.onMacro m fw fr fc = 0)
    (hstep : ∀ c i k t (e : Effect Memory Thread Event) a, t.macroId = m →
      allowed c (.step i k) → c.pool[i]? = some t →
      Thread.Step c i t ⟨a, e.next, e.spawned, e.events⟩ → a.apply m c.shared = some e.shared →
      t.onMacro m fw fr fc ≤ g (c.shared.macros m) →
      g (e.shared.macros m) + t.onMacro m fw fr fc = g (c.shared.macros m) +
        e.next.onMacro m fw fr fc + weight (Thread.onMacro m fw fr fc) e.spawned)
    (h : program.Run allowed c₀ tr c) :
    g (c.shared.macros m) = weight (Thread.onMacro m fw fr fc) c.pool := by
  refine Machine.Run.counter_eq_weight (g := fun mem => g (mem.macros m)) hinit hcall ?_ h
  intro c i k t e hg ok ht he
  obtain ⟨a, hs, ha⟩ := step_of_program_move he
  by_cases hm : t.macroId = m
  · -- the counter is at least the weight of the thread, so lowering it does not wrap
    refine hstep c i k t e a hm ok ht hs (hm ▸ ha) ?_
    rw [hg]
    exact le_weight _ (List.mem_of_getElem? ht)
  · -- a thread of another macro moves neither the field nor the weight
    obtain ⟨hnext, hspawned⟩ := macroId_of_ne he hm
    have hzero : weight (Thread.onMacro m fw fr fc) e.spawned = 0 :=
      weight_eq_zero_iff.mpr fun u hu => Thread.onMacro_of_ne (hspawned u hu)
    rw [macros_of_ne he hm, Thread.onMacro_of_ne hm, Thread.onMacro_of_ne hnext, hzero]

end Libmacro
