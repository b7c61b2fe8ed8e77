import Libmacro.Receivers
import Mathlib.Data.List.Nodup

/-! # The order of a dispatch

`Dispatcher::dispatch` walks an `unordered_set`, in whatever order it has, and stops at the first
receiver that blocks. When the results of the receivers do not depend on one another, what the
dispatch returns does not depend on the order; who is called does, as soon as somebody blocks and
is not alone (`dispatch_orders`). -/

namespace Libmacro

namespace Dispatcher

variable {ρ σ : Type}

section Dispatch

variable (receive : σ → ρ → σ × Bool)

/-- `Dispatcher::dispatch` over the receivers in the order of the iteration: the state after it
and its `blockFlag`. -/
def dispatch (s : σ) : List (Option ρ) → σ × Bool
  | [] => (s, false)
  | none :: rest => dispatch s rest
  | some iter :: rest =>
    let (s', blockFlag) := receive s iter
    if blockFlag then (s', true) else dispatch s' rest

/-- The receivers that `dispatch` calls, in the order of the calls. -/
def calls (s : σ) : List (Option ρ) → List ρ
  | [] => []
  | none :: rest => calls s rest
  | some iter :: rest =>
    let (s', blockFlag) := receive s iter
    iter :: if blockFlag then [] else calls s' rest

variable (d : Dispatcher ρ) (s : σ)

/-- **The results do not depend on one another**: a registered receiver returns what it returns
in the first place whichever registered receivers are called before it. -/
def Independent : Prop :=
  ∀ called : List ρ, (∀ r ∈ called, d.Has r) → ∀ r, d.Has r →
    (receive (called.foldl (fun s r => (receive s r).1) s) r).2 = (receive s r).2

/-- Some registered receiver returns true, and so blocks those that come after it. -/
def SomeBlocks : Prop := ∃ r, d.Has r ∧ (receive s r).2 = true

end Dispatch

section Order

variable {receive : σ → ρ → σ × Bool} {d : Dispatcher ρ} {s : σ} {order order' : List (Option ρ)}

/-- After a call the results are what they were. -/
theorem Independent.receive_snd (h : d.Independent receive s) {r r' : ρ} (hr : d.Has r)
    (hr' : d.Has r') : (receive (receive s r).1 r').2 = (receive s r').2 :=
  h [r] (by simpa using hr) r' hr'

/-- Receivers that are independent stay so after one of them has received. -/
theorem Independent.step (h : d.Independent receive s) {r : ρ} (hr : d.Has r) :
    d.Independent receive (receive s r).1 := by
  intro called hcalled r' hr'
  rw [h.receive_snd hr hr']
  exact h (r :: called) (List.forall_mem_cons.mpr ⟨hr, hcalled⟩) r' hr'

/-- **The flag** is true iff a receiver of the order returns true. -/
theorem Independent.dispatch_snd_iff (h : d.Independent receive s)
    (hreg : ∀ r, some r ∈ order → d.Has r) :
    (dispatch receive s order).2 = true ↔ ∃ r, some r ∈ order ∧ (receive s r).2 = true := by
  induction order generalizing s with
  | nil => simp [dispatch]
  | cons r? rest ih =>
    have hrest : ∀ r, some r ∈ rest → d.Has r := fun r hr => hreg r (List.mem_cons_of_mem _ hr)
    cases r? with
    | none =>
      -- a null receiver is passed over
      rw [dispatch, ih h hrest]
      simp
    | some r₀ =>
      have hr₀ := hreg r₀ List.mem_cons_self
      rw [dispatch]
      dsimp only
      by_cases hblocks : (receive s r₀).2 = true
      · rw [if_pos hblocks]
        exact iff_of_true rfl ⟨r₀, List.mem_cons_self, hblocks⟩
      · -- the others return after the call of `r₀` what they returned before it
        rw [if_neg hblocks, ih (h.step hr₀) hrest]
        constructor
        · rintro ⟨r, hr, htrue⟩
          rw [h.receive_snd hr₀ (hrest r hr)] at htrue
          exact ⟨r, List.mem_cons_of_mem _ hr, htrue⟩
        · rintro ⟨r, hr, htrue⟩
          rcases List.mem_cons.mp hr with heq | hr
          · obtain rfl : r = r₀ := Option.some.inj heq
            exact absurd htrue hblocks
          · refine ⟨r, hr, ?_⟩
            rw [h.receive_snd hr₀ (hrest r hr)]
            exact htrue

/-- The calls come in the order, each at most once. -/
theorem sublist_calls (s : σ) (order : List (Option ρ)) :
    ((calls receive s order).map some).Sublist order := by
  induction order generalizing s with
  | nil => exact List.Sublist.refl _
  | cons r? rest ih =>
    cases r? with
    | none => exact (ih s).cons _
    | some r =>
      rw [calls]
      dsimp only
      rw [List.map_cons]
      refine List.Sublist.cons_cons _ ?_
      split_ifs
      · exact List.nil_sublist _
      · exact ih _

/-- **Who is called**: the receivers with nobody before them in the order who returns true. -/
theorem Independent.mem_calls_iff (h : d.Independent receive s)
    (hreg : ∀ r, some r ∈ order → d.Has r) (r : ρ) :
    r ∈ calls receive s order ↔ ∃ before after, order = before ++ some r :: after ∧
      ∀ r', some r' ∈ before → (receive s r').2 = false := by
  induction order generalizing s with
  | nil => simp [calls]
  | cons r? rest ih =>
    have hrest : ∀ r, some r ∈ rest → d.Has r := fun r hr => hreg r (List.mem_cons_of_mem _ hr)
    cases r? with
    | none =>
      -- a null receiver is passed over
      rw [calls, ih h hrest]
      constructor
      · rintro ⟨before, after, rfl, hfalse⟩
        exact ⟨none :: before, after, rfl, by simpa using hfalse⟩
      · rintro ⟨before, after, heq, hfalse⟩
        cases before with
        | nil => cases heq
        | cons b before =>
          obtain ⟨rfl, rfl⟩ := List.cons.inj heq
          exact ⟨before, after, rfl, fun r' hr' => hfalse r' (List.mem_cons_of_mem _ hr')⟩
    | some r₀ =>
      have hr₀ := hreg r₀ List.mem_cons_self
      rw [calls, List.mem_cons]
      constructor
      · rintro (rfl | hr)
        · exact ⟨[], rest, rfl, by simp⟩
        · by_cases hblocks : (receive s r₀).2 = true
          · rw [if_pos hblocks] at hr
            cases hr
          · rw [if_neg hblocks] at hr
            obtain ⟨before, after, rfl, hfalse⟩ := (ih (h.step hr₀) hrest).mp hr
            -- `r` was called after `r₀`, which did not block; what is in between answers as before
            refine ⟨some r₀ :: before, after, rfl, fun r' hr' => ?_⟩
            rcases List.mem_cons.mp hr' with heq | hr'
            · obtain rfl : r' = r₀ := Option.some.inj heq
              exact Bool.eq_false_of_not_eq_true hblocks
            · rw [← h.receive_snd hr₀ (hrest r' (List.mem_append_left _ hr'))]
              exact hfalse r' hr'
      · rintro ⟨before, after, heq, hfalse⟩
        cases before with
        | nil => exact .inl (Option.some.inj (List.cons.inj heq).1).symm
        | cons b before =>
          obtain ⟨rfl, rfl⟩ := List.cons.inj heq
          right
          -- `r₀` stands before `r`, so it does not block and the loop goes on
          rw [hfalse r₀ List.mem_cons_self, if_neg Bool.false_ne_true, ih (h.step hr₀) hrest]
          refine ⟨before, after, rfl, fun r' hr' => ?_⟩
          rw [h.receive_snd hr₀ (hrest r' (List.mem_append_left _ hr'))]
          exact hfalse r' (List.mem_cons_of_mem _ hr')

/-- A receiver is called in every order when nobody else blocks. -/
theorem Independent.mem_calls_of_others (h : d.Independent receive s) (ho : d.Enumerates order)
    {r : ρ} (hothers : ∀ r', d.Has r' → r' ≠ r → (receive s r').2 = false) :
    r ∈ calls receive s order ↔ d.Has r := by
  rw [h.mem_calls_iff fun r hr => (ho.2 _).mp hr]
  constructor
  · rintro ⟨before, after, rfl, -⟩
    exact (ho.2 _).mp (List.mem_append_right _ List.mem_cons_self)
  · intro hr
    obtain ⟨before, after, rfl⟩ := List.append_of_mem ((ho.2 _).mpr hr)
    refine ⟨before, after, rfl, fun r' hr' => ?_⟩
    refine hothers r' ((ho.2 _).mp (List.mem_append_left _ hr')) fun heq => ?_
    exact (List.nodup_append.mp ho.1).2.2 _ hr' _ List.mem_cons_self (congrArg some heq)

/-- Whoever comes first is called, and nobody else if it blocks. -/
theorem mem_calls_cons_of_blocks {r₀ r : ρ} {rest : List (Option ρ)}
    (hblocks : (receive s r₀).2 = true) : r ∈ calls receive s (some r₀ :: rest) ↔ r = r₀ := by
  rw [calls]
  dsimp only
  rw [if_pos hblocks, List.mem_singleton]

variable [DecidableEq ρ]

/-- **All orders call the same receivers** iff nobody blocks or nobody else is registered. -/
theorem Independent.calls_eq_iff (h : d.Independent receive s) :
    (∀ order order', d.Enumerates order → d.Enumerates order' →
        ∀ r, r ∈ calls receive s order ↔ r ∈ calls receive s order') ↔
      (d.SomeBlocks receive s → ∀ r r', d.Has r → d.Has r' → r = r') := by
  constructor
  · rintro hsame ⟨b, hb, hblocks⟩
    -- the order in which the blocking receiver comes first calls nobody else
    have halone : ∀ r, d.Has r → r = b := by
      intro r hr
      obtain ⟨rest, hrest⟩ := exists_enumerates_cons hr
      obtain ⟨rest', hrest'⟩ := exists_enumerates_cons hb
      refine (mem_calls_cons_of_blocks hblocks).mp ((hsame _ _ hrest hrest' r).mp ?_)
      rw [calls]
      exact List.mem_cons_self
    intro r r' hr hr'
    rw [halone r hr, halone r' hr']
  · intro halone order order' ho ho' r
    by_cases hr : d.Has r
    · have hothers : ∀ r', d.Has r' → r' ≠ r → (receive s r').2 = false := by
        intro r' hr' hne
        refine Bool.eq_false_of_not_eq_true fun htrue => ?_
        exact hne (halone ⟨r', hr', htrue⟩ r' r hr' hr)
      rw [h.mem_calls_of_others ho hothers, h.mem_calls_of_others ho' hothers]
    · -- nobody else than the registered receivers is called
      have hout : ∀ order, d.Enumerates order → r ∉ calls receive s order := by
        intro order ho hcall
        have hmem := (sublist_calls s order).subset (List.mem_map_of_mem hcall)
        exact hr ((ho.2 _).mp hmem)
      exact iff_of_false (hout order ho) (hout order' ho')

end Order

end Dispatcher

/-! ## Macros and triggers -/

namespace Memory

section Receive

variable (triggers : TriggerId → Trigger) (worker : Memory → MacroId → Option ThreadId)
  (signalPtr : Option SignalId) (mods : ModFlags)

/-- The dispatch of macros and triggers is the dispatch of their `receive`. -/
theorem dispatch_eq (mem : Memory) (order : List (Option Receiver)) :
    ((mem.dispatch triggers worker signalPtr mods order).1,
        (mem.dispatch triggers worker signalPtr mods order).2.isSome) =
      Dispatcher.dispatch (receive triggers worker signalPtr mods) mem order := by
  induction order generalizing mem with
  | nil => rfl
  | cons r? rest ih =>
    cases r? with
    | none => exact ih mem
    | some r =>
      rw [dispatch, Dispatcher.dispatch]
      dsimp only
      split_ifs
      · rfl
      · exact ih _

/-- What a macro or a trigger returns is not changed by starting macros. -/
theorem receive_snd_start (mem : Memory) (m : MacroId) (w : Option ThreadId) (r : Receiver) :
    ((mem.start m w).receive triggers worker signalPtr mods r).2 =
      (mem.receive triggers worker signalPtr mods r).2 := by
  cases r with
  | ofMacro m' =>
    rw [receive, receive, start_blocking, start_blocking, start_blocking]
  | trigger t => rw [receive_trigger_snd, receive_trigger_snd]

/-- **The results of macros and triggers do not depend on one another.** -/
theorem independent_receive (d : Dispatcher Receiver) (mem : Memory) :
    d.Independent (receive triggers worker signalPtr mods) mem := by
  intro called hcalled r _
  induction called generalizing mem with
  | nil => rfl
  | cons r' called ih =>
    rw [List.foldl_cons, ih _ (List.forall_mem_cons.mp hcalled).2]
    rcases mem.receive_cases triggers worker signalPtr mods r' with heq | ⟨m, heq⟩
    · rw [heq]
    · rw [heq, receive_snd_start]

/-- **Whether a dispatch of macros and triggers is blocked** does not depend on the order. -/
theorem dispatch_isSome_iff {d : Dispatcher Receiver} {order : List (Option Receiver)}
    (ho : d.Enumerates order) (mem : Memory) :
    (mem.dispatch triggers worker signalPtr mods order).2.isSome = true ↔
      ∃ r, d.Has r ∧ (mem.receive triggers worker signalPtr mods r).2 = true := by
  have hflag := congrArg Prod.snd (dispatch_eq triggers worker signalPtr mods mem order)
  dsimp only at hflag
  rw [hflag, (independent_receive triggers worker signalPtr mods d mem).dispatch_snd_iff
    fun r hr => (ho.2 _).mp hr]
  simp only [ho.2]
  rfl

end Receive

end Memory

namespace Dispatcher

variable {ρ σ : Type} [DecidableEq ρ] {receive : σ → ρ → σ × Bool} {d : Dispatcher ρ} {s : σ}
  {order order' : List (Option ρ)}

/-- **A dispatch in any two orders** returns the same flag, true iff some registered receiver
returns true. It calls nobody twice, and the receivers with nobody before them in the order who
blocks: every registered receiver once when nobody blocks. Every two orders call the same
receivers iff nobody blocks or nobody else is registered. -/
theorem dispatch_orders (h : d.Independent receive s) (ho : d.Enumerates order)
    (ho' : d.Enumerates order') :
    (dispatch receive s order).2 = (dispatch receive s order').2 ∧
      ((dispatch receive s order).2 = true ↔ d.SomeBlocks receive s) ∧
      (calls receive s order).Nodup ∧
      (∀ r, r ∈ calls receive s order ↔ ∃ before after, order = before ++ some r :: after ∧
        ∀ r', some r' ∈ before → (receive s r').2 = false) ∧
      (¬ d.SomeBlocks receive s →
        ∀ r, d.Has r → (calls receive s order).count r = 1) ∧
      ((∀ order order', d.Enumerates order → d.Enumerates order' →
          ∀ r, r ∈ calls receive s order ↔ r ∈ calls receive s order') ↔
        (d.SomeBlocks receive s → ∀ r r', d.Has r → d.Has r' → r = r')) := by
  -- the flag says whether a receiver blocks, which no order changes
  have hflag : ∀ order, d.Enumerates order →
      ((dispatch receive s order).2 = true ↔ d.SomeBlocks receive s) := by
    intro order ho
    rw [h.dispatch_snd_iff fun r hr => (ho.2 _).mp hr]
    simp only [ho.2]
    rfl
  have hnodup : (calls receive s order).Nodup :=
    List.Nodup.of_map some (ho.1.sublist (sublist_calls s order))
  refine ⟨?_, hflag order ho, hnodup, h.mem_calls_iff fun r hr => (ho.2 _).mp hr, ?_,
    h.calls_eq_iff⟩
  · rw [Bool.eq_iff_iff, hflag order ho, hflag order' ho']
  · intro hnone r hr
    refine List.count_eq_one_of_mem hnodup ((h.mem_calls_of_others ho fun r' hr' _ => ?_).mpr hr)
    exact Bool.eq_false_of_not_eq_true fun htrue => hnone ⟨r', hr', htrue⟩

/-- Macros that are enabled, of which macro 0 blocks. -/
def oneBlocks : Memory where
  macros m := { interruptor := .continue, blocking := m = 0 }

/-- Macros 0 and 1 are registered. -/
def twoMacros : Dispatcher Receiver := ⟨{some (.ofMacro 0), some (.ofMacro 1)}⟩

/-- The macros receive a signal, and no thread can be created. -/
def receiveMacro : Memory → Receiver → Memory × Bool :=
  Memory.receive blockingAction (fun _ _ => none) none 0

/-- One order in which the two receivers may be visited. -/
theorem enumerates_twoMacros : twoMacros.Enumerates [some (.ofMacro 0), some (.ofMacro 1)] :=
  ⟨by decide, by simp [twoMacros]⟩

/-- The other order, as possible as the first. -/
theorem enumerates_twoMacros_swap :
    twoMacros.Enumerates [some (.ofMacro 1), some (.ofMacro 0)] :=
  ⟨by decide, by simp [twoMacros, or_comm]⟩

/-- Either order of the two macros gives a dispatch that is blocked. -/
theorem dispatch_orders_twoMacros :
    (dispatch receiveMacro oneBlocks [some (.ofMacro 0), some (.ofMacro 1)]).2 =
        (dispatch receiveMacro oneBlocks [some (.ofMacro 1), some (.ofMacro 0)]).2 ∧
      ((dispatch receiveMacro oneBlocks [some (.ofMacro 0), some (.ofMacro 1)]).2 = true ↔
        twoMacros.SomeBlocks receiveMacro oneBlocks) := by
  obtain ⟨hsame, hflag, -⟩ := dispatch_orders
    (Memory.independent_receive blockingAction (fun _ _ => none) none 0 twoMacros oneBlocks)
    enumerates_twoMacros enumerates_twoMacros_swap
  exact ⟨hsame, hflag⟩

/-- **Who is called depends on the order**: macro 1 is called when it comes before macro 0, which
blocks. -/
theorem not_dispatch_calls_all :
    ¬ ∀ (d : Dispatcher Receiver) (mem : Memory) order order', none ∉ d.receivers →
      d.Independent receiveMacro mem → d.Enumerates order → d.Enumerates order' →
        (dispatch receiveMacro mem order).2 = (dispatch receiveMacro mem order').2 ∧
          ((dispatch receiveMacro mem order).2 = true ↔ d.SomeBlocks receiveMacro mem) ∧
          (∀ r, r ∈ calls receiveMacro mem order ↔ r ∈ calls receiveMacro mem order') ∧
          ∀ r, d.Has r → (calls receiveMacro mem order).count r = 1 := by
  intro hall
  obtain ⟨-, -, hsame, -⟩ := hall twoMacros oneBlocks _ _ (by decide)
    (Memory.independent_receive blockingAction (fun _ _ => none) none 0 twoMacros oneBlocks)
    enumerates_twoMacros enumerates_twoMacros_swap
  exact absurd ((hsame (.ofMacro 1)).mpr (by decide)) (by decide)

end Dispatcher

end Libmacro
