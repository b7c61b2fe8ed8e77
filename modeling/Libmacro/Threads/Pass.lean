import Mathlib.Data.List.ReduceOption
import Libmacro.SignalPass
import Libmacro.Threads.Program

/-! # A pass among other threads

`dispatchSignals` as one loop (`SignalPass`) and as the steps of a worker between which other
threads move (`RunPc.move`) are the same function: whatever the other threads do, the deliveries
of a worker from the beginning to the end of a pass are those of the loop, for the interruptors
that the worker happened to read (`pass_of_run`). -/

namespace Libmacro

open Interleaving

/-- The signal that is delivered, by a dispatcher or by `send`. -/
def Delivery.signalPtr : Delivery → SignalId
  | offered _ s _ => s
  | sent _ s => s

/-- The delivery, as worker `i` of macro `m` begins it. -/
def Delivery.event (m : MacroId) (i : ThreadId) (dispatcherPtr : SignalId → Option DispatcherId)
    (e : Delivery) : Event :=
  .deliver m i e.signalPtr (dispatcherPtr e.signalPtr)

/-- The worker is inside the loop of `dispatchSignals`, in a test or in a delivery. -/
def RunPc.inPass : RunPc → Bool
  | breakTest _ | skipTest _ _ | deliver _ _ | delivering _ => true
  | _ => false

/-- The event is the beginning of a delivery by worker `i` of macro `m`. -/
def Event.isDeliveryOf (m : MacroId) (i : ThreadId) : Event → Bool
  | deliver m' w _ _ => m' = m ∧ w = i
  | _ => false

/-- Steps of a worker inside `dispatchSignals`, each in the memory that the other threads have
left, with an interruptor that satisfies `Q`. -/
inductive RunPc.Passes (m : MacroId) (i : ThreadId) (dispatcherPtr : SignalId → Option DispatcherId)
    (Q : Interrupt → Prop) : RunPc → List Event → RunPc → Prop
  /-- No step. -/
  | refl {p : RunPc} : Passes m i dispatcherPtr Q p [] p
  /-- One step, and more. -/
  | cons {mem : Memory} {a : Access} {p p' p'' : RunPc} {ev tr : List Event}
      (hp : p.inPass = true) (hptr : mem.dispatcherPtr = dispatcherPtr)
      (hq : Q (mem.macros m).interruptor) (h : p.Step mem m i a p' ev)
      (rest : Passes m i dispatcherPtr Q p' tr p'') : Passes m i dispatcherPtr Q p (ev ++ tr) p''

section Passes

variable {m : MacroId} {i : ThreadId} {dispatcherPtr : SignalId → Option DispatcherId}
  {Q : Interrupt → Prop} {p p' p'' : RunPc} {tr ev : List Event}

/-- One more step at the end. -/
theorem RunPc.Passes.snoc {mem : Memory} {a : Access} (h : p.Passes m i dispatcherPtr Q tr p')
    (hp : p'.inPass = true) (hptr : mem.dispatcherPtr = dispatcherPtr)
    (hq : Q (mem.macros m).interruptor) (hs : p'.Step mem m i a p'' ev) :
    p.Passes m i dispatcherPtr Q (tr ++ ev) p'' := by
  induction h with
  | refl => simpa using RunPc.Passes.cons hp hptr hq hs .refl
  | cons hp₀ hptr₀ hq₀ hs₀ _ ih =>
    rw [List.append_assoc]
    exact .cons hp₀ hptr₀ hq₀ hs₀ (ih hp hs)

/-- Outside of `dispatchSignals` there are no such steps. -/
theorem RunPc.Passes.eq_of_not_inPass (h : p.Passes m i dispatcherPtr Q tr p')
    (hp : p.inPass = false) : p = p' ∧ tr = [] := by
  cases h with
  | refl => exact ⟨rfl, rfl⟩
  | cons hp' =>
    rw [hp] at hp'
    cases hp'

/-- The loop looks at the positions it has still to reach, and no other. -/
theorem dispatchSignals_congr {env env' : Encounter} {signals : List (Option SignalId)} {k : ℕ}
    (h : ∀ j, k ≤ j → env.breakTest j = env'.breakTest j ∧ env.skipTest j = env'.skipTest j ∧
      env.blocked j = env'.blocked j) :
    dispatchSignals dispatcherPtr env k signals = dispatchSignals dispatcherPtr env' k signals := by
  induction signals generalizing k with
  | nil => rfl
  | cons s signals ih =>
    obtain ⟨hbreak, hskip, hblocked⟩ := h k (Nat.le_refl k)
    have hrest := ih (k := k + 1) fun j hj => h j (by omega)
    cases s with
    | none => simp only [dispatchSignals, hbreak, hskip, hrest]
    | some s => simp only [dispatchSignals, deliver, hbreak, hskip, hblocked, hrest]

/-- What the worker reads at position `k`, before what it reads later. -/
def Encounter.at (env : Encounter) (k : ℕ) (breakTest skipTest : Interrupt) : Encounter where
  breakTest := Function.update env.breakTest k breakTest
  skipTest := Function.update env.skipTest k skipTest
  blocked := env.blocked

/-- The loop after position `k` does not see what was read there. -/
theorem dispatchSignals_at (env : Encounter) (k : ℕ) (b s : Interrupt)
    (signals : List (Option SignalId)) :
    dispatchSignals dispatcherPtr (env.at k b s) (k + 1) signals =
      dispatchSignals dispatcherPtr env (k + 1) signals := by
  refine dispatchSignals_congr fun j hj => ?_
  have hne : j ≠ k := by omega
  simp [Encounter.at, hne]

/-- The interruptors of an encounter satisfy `Q`. -/
def Encounter.Reads (Q : Interrupt → Prop) (env : Encounter) : Prop :=
  ∀ j, Q (env.breakTest j) ∧ Q (env.skipTest j)

/-- So do those with two more. -/
theorem Encounter.Reads.at {env : Encounter} {b s : Interrupt} (h : env.Reads Q) (k : ℕ)
    (hb : Q b) (hs : Q s) : (env.at k b s).Reads Q := by
  intro j
  by_cases hj : j = k
  · subst hj
    simp [Encounter.at, hb, hs]
  · simpa [Encounter.at, hj] using h j

/-- The event of a delivery does not depend on its kind. -/
theorem event_deliver (env : Encounter) (k : ℕ) (s : SignalId) :
    (deliver dispatcherPtr env k s).event m i dispatcherPtr = .deliver m i s (dispatcherPtr s) := by
  unfold deliver
  cases h : dispatcherPtr s <;> simp [Delivery.event, Delivery.signalPtr, h]

/-- **One position of the list**: the loop is left at the first test, or goes on after the second,
or goes on with the signal delivered. -/
theorem RunPc.Passes.position {s : Option SignalId} {rest : List (Option SignalId)}
    (h : (breakTest (s :: rest)).Passes m i dispatcherPtr Q tr (.pause .test)) :
    ∃ b, Q b ∧ (Interrupt.interruptAll.code ≤ b.code ∧ tr = [] ∨
      ¬ Interrupt.interruptAll.code ≤ b.code ∧ ∃ b' tr', Q b' ∧
        (breakTest rest).Passes m i dispatcherPtr Q tr' (.pause .test) ∧
        tr = if Interrupt.interrupt.code ≤ b'.code then tr'
          else (s.map fun s => .deliver m i s (dispatcherPtr s)).toList ++ tr') := by
  cases h with
  | cons _ _ hq hs hrest =>
    refine ⟨_, hq, ?_⟩
    cases hs with
    | passBreak hi => exact .inl ⟨hi, (hrest.eq_of_not_inPass rfl).2⟩
    | breakTest hi =>
      refine .inr ⟨hi, ?_⟩
      cases hrest with
      | cons _ _ hq hs hrest =>
        cases hs with
        | skip hj => exact ⟨_, _, hq, hrest, (if_pos hj).symm⟩
        | skipTest hj =>
          simp only [List.nil_append]
          cases hrest with
          | cons _ hptr _ hs hrest =>
            subst hptr
            cases hs with
            | nullSignal => exact ⟨_, _, hq, hrest, (if_neg hj).symm⟩
            | deliver =>
              cases hrest with
              | cons _ _ _ hs hrest =>
                cases hs with
                | delivered => exact ⟨_, _, hq, hrest, (if_neg hj).symm⟩
                -- an exception ends the run, not the pass
                | threw => cases (hrest.eq_of_not_inPass rfl).1

/-- **A worker's steps through a pass are the loop**, from position `k` of the list on. -/
theorem eq_dispatchSignals_of_passes {rest : List (Option SignalId)}
    (h : (RunPc.breakTest rest).Passes m i dispatcherPtr Q tr (.pause .test)) (k : ℕ) :
    ∃ env : Encounter, env.Reads Q ∧
      tr = (dispatchSignals dispatcherPtr env k rest).map
        (Delivery.event m i dispatcherPtr) := by
  induction rest generalizing tr k with
  | nil =>
    cases h with
    | cons _ _ hq hs hrest =>
      cases hs with
      | passOver =>
        obtain ⟨-, rfl⟩ := hrest.eq_of_not_inPass rfl
        exact ⟨⟨fun _ => _, fun _ => _, fun _ => false⟩, fun _ => ⟨hq, hq⟩, rfl⟩
  | cons s rest ih =>
    obtain ⟨b, hb, ⟨hi, rfl⟩ | ⟨hi, b', tr', hb', hrest, rfl⟩⟩ := h.position
    · refine ⟨⟨fun _ => b, fun _ => b, fun _ => false⟩, fun _ => ⟨hb, hb⟩, ?_⟩
      rw [dispatchSignals_of_break hi, List.map_nil]
    · -- the rest of the list is met as `env`, this position as `b` and `b'`
      obtain ⟨env, henv, rfl⟩ := ih hrest (k + 1)
      have hbreak : ¬ Interrupt.interruptAll.code ≤ ((env.at k b b').breakTest k).code := by
        simpa [Encounter.at] using hi
      refine ⟨env.at k b b', henv.at k hb hb', ?_⟩
      by_cases hj : Interrupt.interrupt.code ≤ b'.code
      · have hskip : Interrupt.interrupt.code ≤ ((env.at k b b').skipTest k).code := by
          simpa [Encounter.at] using hj
        rw [if_pos hj, dispatchSignals_of_skip hbreak hskip, dispatchSignals_at]
      · have hskip : ¬ Interrupt.interrupt.code ≤ ((env.at k b b').skipTest k).code := by
          simpa [Encounter.at] using hj
        rw [if_neg hj, dispatchSignals_cons_of_not hbreak hskip, dispatchSignals_at,
          List.map_append]
        cases s with
        | none => rfl
        | some s => simp [event_deliver]

/-- An uninterrupted loop delivers the non-null signals of the list. -/
theorem map_event_dispatchSignals {env : Encounter} (henv : env.Uninterrupted) (k : ℕ)
    {signals : List (Option SignalId)} :
    (dispatchSignals dispatcherPtr env k signals).map (Delivery.event m i dispatcherPtr) =
      signals.reduceOption.map fun s => .deliver m i s (dispatcherPtr s) := by
  induction signals generalizing k with
  | nil => rfl
  | cons s signals ih =>
    rw [dispatchSignals_cons henv, List.map_append, ih]
    cases s with
    | none => rfl
    | some s => simp [event_deliver]

end Passes

section Run

variable {m : MacroId} {i : ThreadId} {o : Option ThreadId} {Q : Interrupt → Prop}
  {c c' : Config Memory Thread} {tr : List Event}

/-- The steps of worker `i` are taken inside `dispatchSignals`, with an interruptor that satisfies
`Q`. -/
def StaysInPass (m : MacroId) (i : ThreadId) (Q : Interrupt → Prop) (c : Config Memory Thread) :
    Label Thread Bool → Prop
  | .step j _ => j = i → Q (c.shared.macros m).interruptor ∧
      ∀ o p, c.pool[i]? = some (.worker m o p) → p.inPass = true
  | .call _ => True

/-- What a step inside `dispatchSignals` emits is a delivery of its worker. -/
theorem RunPc.Step.filter_events {mem : Memory} {a : Access} {p p' : RunPc} {ev : List Event}
    (h : p.Step mem m i a p' ev) (hp : p.inPass = true) :
    ev.filter (Event.isDeliveryOf m i) = ev := by
  cases h with
  | deliver => simp [Event.isDeliveryOf]
  | dispatchSignals | consumed => cases hp
  | _ => rfl

/-- Other threads emit no delivery of the worker. -/
theorem Thread.Emits.filter_events {t : Thread} {j : ThreadId} {ev : List Event}
    (h : t.Emits c j ev) (hj : j ≠ i) : ev.filter (Event.isDeliveryOf m i) = [] := by
  cases h with
  | deliver => simp [Event.isDeliveryOf, hj]
  | interruptAll => split_ifs <;> rfl
  | _ => rfl

/-- **The steps of a worker in a run** are steps of it in the memories that the run meets. -/
theorem passes_of_run {p₀ : RunPc} (hbegin : c.pool[i]? = some (.worker m o p₀))
    (h : program.Run (StaysInPass m i Q) c tr c') :
    ∃ p, c'.pool[i]? = some (.worker m o p) ∧
      p₀.Passes m i c.shared.dispatcherPtr Q (tr.filter (Event.isDeliveryOf m i)) p := by
  have hinv : c'.shared.dispatcherPtr = c.shared.dispatcherPtr ∧
      ∃ p, c'.pool[i]? = some (.worker m o p) ∧
        p₀.Passes m i c.shared.dispatcherPtr Q (tr.filter (Event.isDeliveryOf m i)) p := by
    refine Machine.Run.invariant (P := fun tr c' =>
      c'.shared.dispatcherPtr = c.shared.dispatcherPtr ∧
      ∃ p, c'.pool[i]? = some (.worker m o p) ∧
        p₀.Passes m i c.shared.dispatcherPtr Q (tr.filter (Event.isDeliveryOf m i)) p)
      ⟨rfl, p₀, hbegin, .refl⟩ ?_ ?_ h
    · rintro tr c' t ev ⟨hptr, p, hp, hpasses⟩ - he
      refine ⟨hptr, p, getElem?_append_of_some hp, ?_⟩
      rcases Thread.entry_cases he with ⟨m', -, rfl⟩ | ⟨m', -, rfl⟩ | ⟨m', pc, -, rfl, -⟩ <;>
        simpa [Event.isDeliveryOf] using hpasses
    · rintro tr c' j k t e ⟨hptr, p, hp, hpasses⟩ hstays ht he
      obtain ⟨a, hs, ha⟩ := step_of_program_move he
      have hpool := getElem?_set_append e.next e.spawned ht hp
      refine ⟨(Access.apply_dispatcherPtr ha).trans hptr, ?_⟩
      rw [List.filter_append]
      by_cases hj : j = i
      · -- the worker's own step
        subst hj
        obtain rfl := Option.some.inj (ht.symm.trans hp)
        obtain ⟨hq, hin⟩ := hstays rfl
        rw [if_pos rfl] at hpool
        generalize e.next = u, e.spawned = ts, e.events = ev at hs hpool ⊢
        cases hs with
        | worker hs =>
          have hin := hin o p hp
          rw [hs.filter_events hin]
          exact ⟨_, hpool, hpasses.snoc hin hptr hq hs⟩
      · -- a step of another thread
        rw [if_neg (Ne.symm hj)] at hpool
        refine ⟨p, hpool, ?_⟩
        rcases hs.emits with hnone | hemits
        · simp only at hnone
          simpa [hnone] using hpasses
        · simpa [hemits.filter_events hj] using hpasses
  exact hinv.2

/-- **A pass among other threads is the loop**: from the beginning of a worker's pass to its end,
what it delivers is what the loop delivers, for some interruptors read on the way. -/
theorem pass_of_run {signals : List (Option SignalId)}
    (hbegin : c.pool[i]? = some (.worker m o (.breakTest signals)))
    (h : program.Run (StaysInPass m i Q) c tr c')
    (hend : c'.pool[i]? = some (.worker m o (.pause .test))) :
    ∃ env : Encounter, env.Reads Q ∧ tr.filter (Event.isDeliveryOf m i) =
      (dispatchSignals c.shared.dispatcherPtr env 0 signals).map
        (Delivery.event m i c.shared.dispatcherPtr) := by
  obtain ⟨p, hp, hpasses⟩ := passes_of_run hbegin h
  cases hp.symm.trans hend
  exact eq_dispatchSignals_of_passes hpasses 0

/-- **An uninterrupted pass delivers every signal of the list**, each once and in order. -/
theorem pass_of_run_uninterrupted {signals : List (Option SignalId)}
    (hbegin : c.pool[i]? = some (.worker m o (.breakTest signals)))
    (h : program.Run (StaysInPass m i fun val => val.code < Interrupt.interrupt.code) c tr c')
    (hend : c'.pool[i]? = some (.worker m o (.pause .test))) :
    tr.filter (Event.isDeliveryOf m i) = signals.reduceOption.map fun s =>
      .deliver m i s (c.shared.dispatcherPtr s) := by
  obtain ⟨env, henv, htr⟩ := pass_of_run hbegin h hend
  rw [htr]
  exact map_event_dispatchSignals henv 0

end Run

/-- The thread is a worker inside `dispatchSignals`, or no worker. -/
def Thread.inPass : Thread → Bool
  | worker _ _ p => p.inPass
  | _ => true

/-- A worker in a pass over a list that names a signal twice and has a null entry, another worker
of the macro in a pass of its own, and a client about to pause the macro. -/
def twoPasses : Config Memory Thread :=
  ⟨.ofMacro { interruptor := .continue },
    [.worker 0 none (.breakTest [some 7, none, some 7]), .worker 0 none (.breakTest [some 7]),
      .call 0 (.checkInterruptor Interrupt.pause.code)]⟩

/-- Worker 0 delivers its whole list, although worker 1 delivers the same signal in between and
the macro is paused before the pass is over. -/
theorem pass_of_run_uninterrupted_twice : ∃ tr c,
    program.Run (StaysInPass 0 0 fun val => val.code < Interrupt.interrupt.code) twoPasses tr c ∧
    tr.filter (Event.isDeliveryOf 0 0) = [.deliver 0 0 7 (some 1), .deliver 0 0 7 (some 1)] ∧
    tr.filter (Event.isDeliveryOf 0 1) = [.deliver 0 1 7 (some 1)] ∧
    (c.shared.macros 0).interruptor = .pause := by
  obtain ⟨tr, c, h, hend, hother, hpause⟩ : ∃ tr c, program.exec
      (fun c _ => decide ((c.shared.macros 0).interruptor.code < Interrupt.interrupt.code) &&
        c.pool[0]?.all Thread.inPass) twoPasses
      (List.replicate 4 (.step 0 true) ++ List.replicate 4 (.step 1 true) ++
        List.replicate 4 (.step 2 true) ++ List.replicate 8 (.step 0 true)) = some (tr, c) ∧
      c.pool[0]? = some (.worker 0 none (.pause .test)) ∧
      tr.filter (Event.isDeliveryOf 0 1) = [.deliver 0 1 7 (some 1)] ∧
      (c.shared.macros 0).interruptor = .pause := ⟨_, _, rfl, rfl, by decide, rfl⟩
  have hrun : program.Run (StaysInPass 0 0 fun val => val.code < Interrupt.interrupt.code)
      _ tr c := (Machine.Run.of_exec h).mono fun c l ok => by
    rw [Bool.and_eq_true, decide_eq_true_iff] at ok
    cases l with
    | call => exact trivial
    | step => exact fun _ => ⟨ok.1, fun o p hworker => by simpa [hworker, Thread.inPass] using ok.2⟩
  have hpass := pass_of_run_uninterrupted rfl hrun hend
  exact ⟨tr, c, hrun, hpass, hother, hpause⟩

end Libmacro
