import Libmacro.Containers.History
import Libmacro.Interleaving.Machine
import Libmacro.Types

/-! # Workers that send modifiers

`Modifier::send` reads the modifier word of the context, changes the bits of its mask and writes
the whole word back: two atomic steps. Workers that share a context interleave them.

While no write finds the bits outside its mask changed since its read, the word is the effect of
the writes in their order (`run_eq_foldl`), and at the end every bit has the value of the last
modifier that covers it (`modifiers_of_run`). Otherwise an update can be lost
(`modifiers_lost`). -/

namespace Libmacro

open Containers Interleaving

/-! ## Sending a modifier -/

/-- The signal `Modifier`: a mask of flags and a way to apply it. -/
structure Modifier where
  /-- `modifiers`: the mask. -/
  modifiers : ModFlags := 0
  /-- `apply`. -/
  apply : ApplyValue := .set
  deriving DecidableEq, Repr

namespace Modifier

/-- The word `send` writes when it read `mods`. -/
def applied (s : Modifier) (mods : ModFlags) : ModFlags :=
  match s.apply with
  | .set => mods ||| s.modifiers
  | .unset | .both => mods &&& ~~~s.modifiers
  | .toggle =>
    if mods &&& s.modifiers = s.modifiers then mods &&& ~~~s.modifiers else mods ||| s.modifiers

/-- What a modifier sets bit `b` to: nothing when its mask does not cover the bit. -/
def setsBit (b : ℕ) (s : Modifier) : Option Bool :=
  if s.modifiers.getLsbD b then some (s.apply = .set) else none

/-- Two words that agree outside the mask. -/
def SameOutside (s : Modifier) (mods mods' : ModFlags) : Prop :=
  mods &&& ~~~s.modifiers = mods' &&& ~~~s.modifiers

/-- Two words agree outside of a mask iff their bits outside of it are the same word. -/
instance (s : Modifier) (mods mods' : ModFlags) : Decidable (s.SameOutside mods mods') :=
  inferInstanceAs (Decidable (_ = _))

/-- The bits that clearing a mask leaves. -/
theorem getLsbD_clear (mods mask : ModFlags) (b : ℕ) :
    (mods &&& ~~~mask).getLsbD b = (mods.getLsbD b && !mask.getLsbD b) := by
  rw [BitVec.getLsbD_and, BitVec.getLsbD_not]
  by_cases hlt : b < 32
  · rw [decide_eq_true hlt, Bool.true_and]
  · rw [BitVec.getLsbD_of_ge mods b (by omega), Bool.false_and, Bool.false_and]

/-- Outside the mask the words have the same bits. -/
theorem SameOutside.getLsbD_eq {s : Modifier} {mods mods' : ModFlags}
    (h : s.SameOutside mods mods') {b : ℕ} (hb : s.modifiers.getLsbD b = false) :
    mods.getLsbD b = mods'.getLsbD b := by
  have hbit := congrArg (fun w => BitVec.getLsbD w b) h
  simpa only [getLsbD_clear, hb, Bool.not_false, Bool.and_true] using hbit

/-- **The bits a modifier writes**: its own value inside the mask, the bits it read outside. -/
theorem getLsbD_applied {s : Modifier} (hs : s.apply ≠ .toggle) (mods : ModFlags) (b : ℕ) :
    (s.applied mods).getLsbD b = (s.setsBit b).getD (mods.getLsbD b) := by
  rw [setsBit, applied]
  cases hb : s.modifiers.getLsbD b with
  | true =>
    rw [if_pos rfl, Option.getD_some]
    cases happly : s.apply with
    | set => simp [hb]
    | unset => simp [hb]
    | both => simp [hb]
    | toggle => exact absurd happly hs
  | false =>
    rw [if_neg Bool.false_ne_true, Option.getD_none]
    cases happly : s.apply with
    | set => simp [hb]
    | unset => simp only [getLsbD_clear, hb, Bool.not_false, Bool.and_true]
    | both => simp only [getLsbD_clear, hb, Bool.not_false, Bool.and_true]
    | toggle => exact absurd happly hs

/-- Words that agree outside the mask lead to the same word. -/
theorem SameOutside.applied_eq {s : Modifier} {mods mods' : ModFlags}
    (h : s.SameOutside mods mods') (hs : s.apply ≠ .toggle) : s.applied mods = s.applied mods' := by
  apply BitVec.eq_of_getLsbD_eq
  intro b _
  rw [getLsbD_applied hs, getLsbD_applied hs, setsBit]
  split_ifs with hb
  · rfl
  · rw [Option.getD_none, Option.getD_none, h.getLsbD_eq (by simpa using hb)]

end Modifier

/-! ## Workers sharing a context -/

/-- A worker that sends modifiers to the context. -/
structure Sender where
  /-- The signals it has not sent yet; it is sending the first. -/
  signals : List Modifier
  /-- `mods`: the word `send` has read and not yet written back. -/
  mods : Option ModFlags := none
  deriving DecidableEq, Repr

/-- The atomic steps of `Modifier::send`: `context->modifiers()`, then `context->setModifiers()`.
The shared state is the context's `_modifiers`; a write emits the worker and the signal. -/
def contextMachine : Machine ModFlags Sender Unit (ℕ × Modifier) where
  call _ _ := none
  move c i _ t :=
    match t.mods, t.signals with
    | _, [] => none
    | none, signalPtr :: rest =>
      some ⟨c.shared, ⟨signalPtr :: rest, some c.shared⟩, [], []⟩
    | some mods, signalPtr :: rest =>
      some ⟨signalPtr.applied mods, ⟨rest, none⟩, [], [(i, signalPtr)]⟩

/-- Before a write: no bit outside the mask has changed since the read. -/
def writesUndisturbed (c : Config ModFlags Sender) : Label Sender Unit → Bool
  | .step i _ =>
    match c.pool[i]? with
    | some ⟨signalPtr :: _, some mods⟩ => signalPtr.SameOutside mods c.shared
    | _ => true
  | .call _ => true

/-- **What a move does**: a read keeps the word and the signals; a write that is undisturbed
applies the first signal to the word. -/
theorem contextMachine_move {c : Config ModFlags Sender} {i : ℕ} {k : Unit} {t : Sender}
    {e : Effect ModFlags Sender (ℕ × Modifier)} (ok : writesUndisturbed c (.step i k) = true)
    (ht : c.pool[i]? = some t) (he : contextMachine.move c i k t = some e) :
    e.spawned = [] ∧
      ((e.shared = c.shared ∧ e.next.signals = t.signals ∧ e.events = []) ∨
        ∃ s mods, t.signals = s :: e.next.signals ∧ s.SameOutside mods c.shared ∧
          e.shared = s.applied mods ∧ e.events = [(i, s)]) := by
  obtain ⟨signals, mods⟩ := t
  cases signals with
  | nil => cases mods <;> cases he
  | cons s rest =>
    cases mods with
    | none =>
      obtain rfl := Option.some.inj he
      exact ⟨rfl, Or.inl ⟨rfl, rfl, rfl⟩⟩
    | some mods =>
      obtain rfl := Option.some.inj he
      have hsame : s.SameOutside mods c.shared := by simpa [writesUndisturbed, ht] using ok
      exact ⟨rfl, Or.inr ⟨s, mods, rfl, hsame, rfl, rfl⟩⟩

/-! ## Whole runs -/

section Runs

variable {workers : List (List Modifier)} {word : ModFlags} {tr : List (ℕ × Modifier)}
  {c : Config ModFlags Sender}

/-- The start: the word, and every worker before its first signal. -/
def Sender.start (word : ModFlags) (workers : List (List Modifier)) : Config ModFlags Sender :=
  ⟨word, workers.map fun signals => { signals }⟩

/-- The signals worker `i` wrote, in order. -/
def sentBy (tr : List (ℕ × Modifier)) (i : ℕ) : List Modifier :=
  (tr.filter fun e => e.1 = i).map Prod.snd

/-- What a worker has sent in two parts of a trace is what it has sent in each. -/
theorem sentBy_append (tr tr' : List (ℕ × Modifier)) (i : ℕ) :
    sentBy (tr ++ tr') i = sentBy tr i ++ sentBy tr' i := by
  rw [sentBy, List.filter_append, List.map_append, sentBy, sentBy]

/-- **Program order**: what a worker wrote, followed by what it has left, is what it was given. -/
theorem sentBy_append_signals
    (h : contextMachine.Run (fun c l => writesUndisturbed c l = true) (Sender.start word workers)
      tr c) {i : ℕ} {signals : List Modifier} (hi : workers[i]? = some signals) :
    ∃ t, c.pool[i]? = some t ∧ sentBy tr i ++ t.signals = signals := by
  refine Machine.Run.invariant
    (P := fun tr c => ∃ t, c.pool[i]? = some t ∧ sentBy tr i ++ t.signals = signals) ?_ ?_ ?_ h
  · refine ⟨{ signals }, ?_, rfl⟩
    rw [Sender.start, List.getElem?_map, hi, Option.map_some]
  · intro _ _ _ _ _ _ hcall
    cases hcall
  · rintro tr c j k t e ⟨u, hu, hsent⟩ ok ht he
    refine ⟨_, getElem?_set_append e.next e.spawned ht hu, ?_⟩
    -- a write moves the first signal from what is left to what is written
    obtain ⟨-, ⟨-, hsame, hev⟩ | ⟨s, mods, hcons, -, -, hev⟩⟩ := contextMachine_move ok ht he
    · rw [hev, List.append_nil]
      split_ifs with hij
      · subst hij
        rw [hsame, ← hsent, Option.some.inj (hu.symm.trans ht)]
      · exact hsent
    · rw [hev, sentBy_append]
      split_ifs with hij
      · subst hij
        have htu : u = t := Option.some.inj (hu.symm.trans ht)
        rw [← hsent, htu, hcons]
        simp [sentBy]
      · have hnone : sentBy [(j, s)] i = [] := by simp [sentBy, Ne.symm hij]
        rw [hnone, List.append_nil]
        exact hsent

/-- **The word is the effect of the writes in their order**, when no write is disturbed. -/
theorem run_eq_foldl (happly : ∀ signals ∈ workers, ∀ s ∈ signals, s.apply ≠ .toggle)
    (h : contextMachine.Run (fun c l => writesUndisturbed c l = true) (Sender.start word workers)
      tr c) :
    c.shared = tr.foldl (fun mods e => e.2.applied mods) word ∧
      ∀ t ∈ c.pool, ∀ s ∈ t.signals, s.apply ≠ .toggle := by
  refine Machine.Run.invariant
    (P := fun tr c => c.shared = tr.foldl (fun mods e => e.2.applied mods) word ∧
      ∀ t ∈ c.pool, ∀ s ∈ t.signals, s.apply ≠ .toggle) ?_ ?_ ?_ h
  · refine ⟨rfl, fun t ht => ?_⟩
    obtain ⟨signals, hmem, rfl⟩ := List.mem_map.mp ht
    exact happly signals hmem
  · intro _ _ _ _ _ _ hcall
    cases hcall
  · rintro tr c j k t e ⟨hword, hpool⟩ ok ht he
    have htoggle := hpool t (List.mem_of_getElem? ht)
    obtain ⟨hspawned, ⟨hshared, hsame, hev⟩ | ⟨s, mods, hcons, hout, hshared, hev⟩⟩ :=
      contextMachine_move ok ht he
    · rw [hev, List.append_nil, hshared]
      refine ⟨hword, forall_mem_set_append hpool ?_ (by simp [hspawned])⟩
      rw [hsame]
      exact htoggle
    · rw [hcons] at htoggle
      have hs : s.apply ≠ .toggle := htoggle s List.mem_cons_self
      constructor
      · -- the word read and the word found differ inside the mask only
        rw [hev, List.foldl_append, ← hword, List.foldl_cons, List.foldl_nil, hshared]
        exact hout.applied_eq hs
      · refine forall_mem_set_append hpool (fun s' hs' => ?_) (by simp [hspawned])
        exact htoggle s' (List.mem_cons_of_mem _ hs')

/-- Workers with disjoint masks: no two of them have a modifier for the same flag. -/
def DisjointMasks (workers : List (List Modifier)) : Prop :=
  workers.Pairwise fun signals signals' =>
    ∀ s ∈ signals, ∀ s' ∈ signals', s.modifiers &&& s'.modifiers = 0

/-- Whether the masks of different workers overlap is checked worker by worker. -/
instance (workers : List (List Modifier)) : Decidable (DisjointMasks workers) :=
  inferInstanceAs (Decidable (List.Pairwise _ _))

/-- Only one worker covers a bit. -/
theorem DisjointMasks.eq_of_covers (hmasks : DisjointMasks workers) {i j b : ℕ}
    {signals signals' : List Modifier} (hi : workers[i]? = some signals)
    (hj : workers[j]? = some signals') {s s' : Modifier} (hs : s ∈ signals) (hs' : s' ∈ signals')
    (hb : s.modifiers.getLsbD b = true) (hb' : s'.modifiers.getLsbD b = true) : i = j := by
  obtain ⟨hil, hi⟩ := List.getElem?_eq_some_iff.mp hi
  obtain ⟨hjl, hj⟩ := List.getElem?_eq_some_iff.mp hj
  have hpairs := List.pairwise_iff_getElem.mp hmasks
  -- a bit of both masks would be one of their conjunction
  have hzero : ∀ {w w' : ModFlags}, w &&& w' = 0 → w.getLsbD b = true →
      w'.getLsbD b = true → False := by
    intro w w' hand hw hw'
    have hbit := congrArg (fun v => BitVec.getLsbD v b) hand
    simp only [BitVec.getLsbD_and, hw, hw', Bool.and_true] at hbit
    exact absurd hbit (by simp)
  rcases Nat.lt_trichotomy i j with hij | rfl | hji
  · have hand := hpairs i j hil hjl hij s (hi ▸ hs) s' (hj ▸ hs')
    exact (hzero hand hb hb').elim
  · rfl
  · have hand := hpairs j i hjl hil hji s' (hj ▸ hs') s (hi ▸ hs)
    exact (hzero hand hb' hb).elim

/-- The bit after a history of writes: what was set last, else the bit at the start. -/
theorem getLsbD_foldl {writes : List (ℕ × Modifier)}
    (happly : ∀ e ∈ writes, e.2.apply ≠ .toggle) (word : ModFlags) (b : ℕ) :
    (writes.foldl (fun mods e => e.2.applied mods) word).getLsbD b
      = (lastSet (fun e => Modifier.setsBit b e.2) writes).getD (word.getLsbD b) := by
  induction writes using List.reverseRecOn with
  | nil => rfl
  | append_singleton writes e ih =>
    have he : e.2.apply ≠ .toggle := happly e (by simp)
    have hwrites := ih fun e' he' => happly e' (by simp [he'])
    rw [List.foldl_append, List.foldl_cons, List.foldl_nil, Modifier.getLsbD_applied he, hwrites,
      lastSet_concat]
    cases Modifier.setsBit b e.2 <;> rfl

/-- Whoever wrote is a worker, and wrote one of its signals. -/
theorem mem_signals_of_mem_trace
    (h : contextMachine.Run (fun c l => writesUndisturbed c l = true) (Sender.start word workers)
      tr c) {e : ℕ × Modifier} (he : e ∈ tr) :
    ∃ signals, workers[e.1]? = some signals ∧ e.2 ∈ signals := by
  -- a worker that writes is in the pool, which keeps its length
  have hlen : ∀ e ∈ tr, e.1 < workers.length := by
    have hboth : (∀ e ∈ tr, e.1 < workers.length) ∧ c.pool.length = workers.length := by
      refine Machine.Run.invariant
        (P := fun tr c => (∀ e ∈ tr, e.1 < workers.length) ∧ c.pool.length = workers.length)
        ?_ ?_ ?_ h
      · exact ⟨by simp, by simp [Sender.start]⟩
      · intro _ _ _ _ _ _ hcall
        cases hcall
      · rintro tr c j k t e ⟨htr, hpool⟩ ok ht hmove
        obtain ⟨hj, -⟩ := List.getElem?_eq_some_iff.mp ht
        obtain ⟨hspawned, hcases⟩ := contextMachine_move ok ht hmove
        refine ⟨fun e' he' => ?_, by simp [hspawned, hpool]⟩
        rcases List.mem_append.mp he' with he' | he'
        · exact htr e' he'
        · rcases hcases with ⟨-, -, hev⟩ | ⟨s, mods, -, -, -, hev⟩
          · rw [hev] at he'
            exact absurd he' (by simp)
          · rw [hev, List.mem_singleton] at he'
            rw [he', ← hpool]
            exact hj
    exact hboth.1
  obtain ⟨t, -, hsent⟩ := sentBy_append_signals h (List.getElem?_eq_getElem (hlen e he))
  refine ⟨_, List.getElem?_eq_getElem (hlen e he), ?_⟩
  rw [← hsent]
  refine List.mem_append_left _ (List.mem_map.mpr ⟨e, ?_, rfl⟩)
  exact List.mem_filter.mpr ⟨he, by simp⟩

/-- **No update is lost while no write is disturbed.** When all workers have finished, every bit
has the value of the last modifier that covers it, and a bit that no mask covers is unchanged. -/
theorem modifiers_of_run (workers : List (List Modifier)) (word : ModFlags)
    (happly : ∀ signals ∈ workers, ∀ s ∈ signals, s.apply ≠ .toggle)
    (hmasks : DisjointMasks workers) (tr : List (ℕ × Modifier)) (c : Config ModFlags Sender)
    (h : contextMachine.Run (fun c l => writesUndisturbed c l = true) (Sender.start word workers)
      tr c)
    (hend : ∀ t ∈ c.pool, t.signals = []) (b : ℕ) :
    (∀ signals ∈ workers, ∀ x, LastSet (Modifier.setsBit b) signals x →
      c.shared.getLsbD b = x) ∧
    ((∀ signals ∈ workers, ∀ s ∈ signals, s.modifiers.getLsbD b = false) →
      c.shared.getLsbD b = word.getLsbD b) := by
  have htrace : ∀ e ∈ tr, e.2.apply ≠ .toggle := by
    intro e he
    obtain ⟨signals, hi, hs⟩ := mem_signals_of_mem_trace h he
    exact happly signals (List.mem_of_getElem? hi) e.2 hs
  rw [(run_eq_foldl happly h).1, getLsbD_foldl htrace]
  constructor
  · intro signals hsignals x hlast
    obtain ⟨i, hi⟩ := List.mem_iff_getElem?.mp hsignals
    obtain ⟨t, ht, hsent⟩ := sentBy_append_signals h hi
    rw [hend t (List.mem_of_getElem? ht), List.append_nil] at hsent
    -- the writes of the other workers do not cover the bit
    have hother : ∀ e ∈ tr, e.1 ≠ i → Modifier.setsBit b e.2 = none := by
      intro e he hne
      obtain ⟨signals', hj, hs'⟩ := mem_signals_of_mem_trace h he
      obtain ⟨before, s, later, hsplit, hset, -⟩ := hlast
      have hb : s.modifiers.getLsbD b = true := by
        rw [Modifier.setsBit] at hset
        split_ifs at hset with hb
        exact hb
      rw [Modifier.setsBit, if_neg]
      intro hb'
      exact hne (hmasks.eq_of_covers hj hi hs' (by simp [hsplit]) hb' hb)
    have hfilter := lastSet_filter (p := fun e : ℕ × Modifier => decide (e.1 = i))
      (fun e he hp => hother e he (of_decide_eq_false hp))
    rw [← hfilter, ← lastSet_map (Modifier.setsBit b) Prod.snd]
    change (lastSet (Modifier.setsBit b) (sentBy tr i)).getD _ = x
    rw [hsent, hlast.lastSet_eq, Option.getD_some]
  · intro hfree
    have hnone : lastSet (fun e : ℕ × Modifier => Modifier.setsBit b e.2) tr = none := by
      rw [lastSet_eq_none_iff]
      intro e he
      obtain ⟨signals, hi, hs⟩ := mem_signals_of_mem_trace h he
      rw [Modifier.setsBit, hfree signals (List.mem_of_getElem? hi) e.2 hs]
      rfl
    rw [hnone, Option.getD_none]

end Runs

/-! ## Two workers, in turn and at the same time -/

/-- Two workers: one presses and releases a flag, the other presses another. -/
def twoSenders : List (List Modifier) :=
  [[⟨.alt, .set⟩, ⟨.alt, .unset⟩], [⟨.altGr, .set⟩]]

/-- Each worker reads and writes without the other in between. -/
theorem twoSenders_run :
    contextMachine.Run (fun c l => writesUndisturbed c l = true) (Sender.start .amiga twoSenders)
      [(0, ⟨.alt, .set⟩), (1, ⟨.altGr, .set⟩), (0, ⟨.alt, .unset⟩)]
      ⟨6, [{ signals := [] }, { signals := [] }]⟩ :=
  Machine.Run.of_exec (show contextMachine.exec writesUndisturbed (Sender.start .amiga twoSenders)
    [.step 0 (), .step 0 (), .step 1 (), .step 1 (), .step 0 (), .step 0 ()] = _ from rfl)

/-- The run in which the two take turns: the flag that worker 0 has set and cleared is off, that of
worker 1, set in between, is on, and the flag that was on before, which neither covers, still is. -/
theorem modifiers_of_run_twoSenders : ∃ tr c,
    contextMachine.Run (fun c l => writesUndisturbed c l = true) (Sender.start .amiga twoSenders)
        tr c ∧
      tr.map Prod.fst = [0, 1, 0] ∧ (∀ t ∈ c.pool, t.signals = []) ∧
      c.shared.getLsbD 0 = false ∧ c.shared.getLsbD 1 = true ∧ c.shared.getLsbD 2 = true := by
  have h := modifiers_of_run twoSenders .amiga (by decide) (by decide) _ _ twoSenders_run
    (by decide)
  refine ⟨_, _, twoSenders_run, rfl, by decide, ?_, ?_, (h 2).2 (by decide)⟩
  · exact (h 0).1 [⟨.alt, .set⟩, ⟨.alt, .unset⟩] (by decide) false
      ⟨[⟨.alt, .set⟩], ⟨.alt, .unset⟩, [], rfl, by decide, by simp⟩
  · exact (h 1).1 [⟨.altGr, .set⟩] (by decide) true
      ⟨[], ⟨.altGr, .set⟩, [], rfl, by decide, by simp⟩

/-- Both workers read the word before either writes it: the first update is lost. -/
theorem modifiers_lost :
    ¬ ∀ (workers : List (List Modifier)) (word : ModFlags),
      (∀ signals ∈ workers, ∀ s ∈ signals, s.apply ≠ .toggle) → DisjointMasks workers →
      ∀ tr c, contextMachine.Run (fun _ _ => True) (Sender.start word workers) tr c →
        (∀ t ∈ c.pool, t.signals = []) → ∀ b,
          (∀ signals ∈ workers, ∀ x, LastSet (Modifier.setsBit b) signals x →
            c.shared.getLsbD b = x) ∧
          ((∀ signals ∈ workers, ∀ s ∈ signals, s.modifiers.getLsbD b = false) →
            c.shared.getLsbD b = word.getLsbD b) := by
  intro h
  have hrun : contextMachine.Run (fun _ _ => True)
      (Sender.start 0 [[⟨.alt, .set⟩], [⟨.altGr, .set⟩]])
      [(0, ⟨.alt, .set⟩), (1, ⟨.altGr, .set⟩)] ⟨2, [{ signals := [] }, { signals := [] }]⟩ :=
    (Machine.Run.of_exec (show contextMachine.exec (fun _ _ => true) _
      [.step 0 (), .step 1 (), .step 0 (), .step 1 ()] = _ from rfl)).weaken
  have hbit := (h _ 0 (by decide) (by decide) _ _ hrun (by decide) 0).1 [⟨.alt, .set⟩] (by decide)
    true ⟨[], ⟨.alt, .set⟩, [], rfl, by decide, by simp⟩
  exact absurd hbit (by decide)

end Libmacro
