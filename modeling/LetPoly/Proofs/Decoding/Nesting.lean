import LetPoly.Expr.Document
import LetPoly.Proofs.Decoding.Exact
import LetPoly.Proofs.Inference.Steps

namespace LetPoly

open Yaml (Node)

namespace Yaml

namespace Node

def valueDepth : Node → Nat
  | .scalar _ _ _ _ | .alias _ _ => 0
  | .mapping _ pairs => pairDepths pairs + 1
  | .sequence _ items => depths items
where
  depths : List Node → Nat
    | [] => 0
    | n :: ns => max n.valueDepth (depths ns)
  pairDepths : List (Node × Node) → Nat
    | [] => 0
    | (_, v) :: ps => max v.valueDepth (pairDepths ps)

variable {n v : Node} {key : String} {items : List Node} {pairs : List (Node × Node)} {pos : Pos}

theorem depths_le_iff {bound : Nat} :
    valueDepth.depths items ≤ bound ↔ ∀ n ∈ items, n.valueDepth ≤ bound := by
  induction items with
  | nil => simp [valueDepth.depths]
  | cons n ns ih => simp [valueDepth.depths, ih]

theorem pairDepths_le_iff {bound : Nat} :
    valueDepth.pairDepths pairs ≤ bound ↔ ∀ pair ∈ pairs, pair.2.valueDepth ≤ bound := by
  induction pairs with
  | nil => simp [valueDepth.pairDepths]
  | cons pair ps ih => simp [valueDepth.pairDepths, ih]

theorem Has.valueDepth_lt (has : n.Has key v) : v.valueDepth < n.valueDepth := by
  obtain ⟨pos, before, k, after, rfl, -⟩ := has
  have each := pairDepths_le_iff.mp (Nat.le_refl (valueDepth.pairDepths (before ++ (k, v) :: after)))
  exact Nat.lt_succ_of_le (each (k, v) (List.mem_append_right before List.mem_cons_self))

theorem Lists.valueDepth_le (list : n.Lists items) {m : Node} (member : m ∈ items) :
    m.valueDepth ≤ n.valueDepth := by
  obtain ⟨pos, rfl⟩ := list
  exact depths_le_iff.mp (Nat.le_refl _) m member

/-- What a reader takes to find its way into the values of a node is not more than the bound. -/
def Fits (bound : Nat) (n : Node) : Prop := 5 * n.valueDepth ≤ bound

theorem Fits.mono {bound bound' : Nat} (fits : n.Fits bound) (le : bound ≤ bound') :
    n.Fits bound' := Nat.le_trans fits le

theorem fits_scalar {text tag : String} {plain : Bool} {bound : Nat} :
    (Node.scalar pos text plain tag).Fits bound := Nat.zero_le bound

theorem fits_alias {bound : Nat} : (Node.alias pos key).Fits bound := Nat.zero_le bound

theorem fits_sequence {bound : Nat} (each : ∀ n ∈ items, n.Fits bound) :
    (Node.sequence pos items).Fits bound := by
  have le : valueDepth.depths items ≤ bound / 5 := by
    refine depths_le_iff.mpr fun n member => ?_
    have fits : 5 * n.valueDepth ≤ bound := each n member
    omega
  change 5 * valueDepth.depths items ≤ bound
  omega

theorem fits_mapping {bound : Nat} (each : ∀ pair ∈ pairs, pair.2.Fits bound) :
    (Node.mapping pos pairs).Fits (bound + 5) := by
  have le : valueDepth.pairDepths pairs ≤ bound / 5 := by
    refine pairDepths_le_iff.mpr fun pair member => ?_
    have fits : 5 * pair.2.valueDepth ≤ bound := each pair member
    omega
  change 5 * (valueDepth.pairDepths pairs + 1) ≤ bound + 5
  omega

end Node

namespace Read

section Gives

variable {α β : Type} {read : Read α} {next : α → Read β} {P : α → Prop} {Q : β → Prop}

def Gives (read : Read α) (P : α → Prop) : Prop := ∀ r a r', read.run r = some (a, r') → P a

theorem gives_pure {a : α} (holds : P a) : Gives (pure a) P := by
  intro r b r' done
  cases done
  exact holds

theorem gives_failure : Gives (failure : Read α) P := by
  intro r a r' done
  cases done

theorem gives_bind (first : Gives read P) (rest : ∀ a, P a → Gives (next a) Q) :
    Gives (read >>= next) Q := by
  intro r b r' done
  rw [StateT.run_bind] at done
  obtain ⟨⟨a, mid⟩, ran, done⟩ := Option.bind_eq_some_iff.mp done
  exact rest a (first r a mid ran) mid b r' done

theorem gives_step (rest : ∀ a, Gives (next a) Q) : Gives (read >>= next) Q :=
  gives_bind (fun _ _ _ _ => True.intro) fun a _ => rest a

end Gives

structure Bounded (fuel : Nat) : Prop where
  node : ∀ block entries, Gives (node fuel block entries) (Node.Fits (fuel + 3))
  content : ∀ block entries p, Gives (content fuel block entries p) (Node.Fits (fuel + 4))
  nodeBefore : ∀ ends block entries mark,
    Gives (nodeBefore fuel ends block entries mark) (Node.Fits (fuel + 2))
  blockItems : ∀ seen bound, fuel + 1 ≤ bound → (∀ n ∈ seen, n.Fits bound) →
    Gives (blockItems fuel seen) fun items => ∀ n ∈ items, n.Fits bound
  looseItems : ∀ seen bound, fuel + 1 ≤ bound → (∀ n ∈ seen, n.Fits bound) →
    Gives (looseItems fuel seen) fun items => ∀ n ∈ items, n.Fits bound
  blockPairs : ∀ seen bound, fuel ≤ bound → (∀ pair ∈ seen, pair.2.Fits bound) →
    Gives (blockPairs fuel seen) fun pairs => ∀ pair ∈ pairs, pair.2.Fits bound
  blockValue : Gives (blockValue fuel) (Node.Fits (fuel + 1))
  flowItems : ∀ first seen bound, fuel + 4 ≤ bound → (∀ n ∈ seen, n.Fits bound) →
    Gives (flowItems fuel first seen) fun items => ∀ n ∈ items, n.Fits bound
  flowPair : Gives (flowPair fuel) fun pair => pair.2.Fits fuel
  flowPairValue : Gives (flowPairValue fuel) (Node.Fits (fuel + 1))
  flowPairs : ∀ first seen bound, fuel ≤ bound → (∀ pair ∈ seen, pair.2.Fits bound) →
    Gives (flowPairs fuel first seen) fun pairs => ∀ pair ∈ pairs, pair.2.Fits bound
  flowValue : Gives (flowValue fuel) (Node.Fits (fuel + 1))

theorem bounded_zero : Bounded 0 := by
  constructor <;> intros <;> exact gives_failure

namespace Bounded

variable {fuel : Nat}

theorem node_succ (bounded : Bounded fuel) (block entries : Bool) :
    Gives (Read.node (fuel + 1) block entries) (Node.Fits (fuel + 4)) := by
  unfold Read.node
  refine gives_step fun t => ?_
  split
  · exact gives_step fun _ => gives_step fun _ => gives_pure Node.fits_alias
  · exact gives_step fun p => bounded.content block entries p

theorem content_succ (bounded : Bounded fuel) (block entries : Bool) (p : Properties) :
    Gives (Read.content (fuel + 1) block entries p) (Node.Fits (fuel + 5)) := by
  unfold Read.content
  refine gives_step fun _ => gives_step fun t => ?_
  split
  · refine gives_bind (bounded.looseItems [] (fuel + 1) (Nat.le_refl _) (by simp)) fun items fits => ?_
    exact gives_pure ((Node.fits_sequence fits).mono (by omega))
  · exact gives_step fun _ => gives_pure Node.fits_scalar
  · refine gives_step fun _ => ?_
    refine gives_bind (bounded.flowItems true [] (fuel + 4) (Nat.le_refl _) (by simp)) fun items fits => ?_
    exact gives_pure ((Node.fits_sequence fits).mono (by omega))
  · refine gives_step fun _ => ?_
    refine gives_bind (bounded.flowPairs true [] fuel (Nat.le_refl _) (by simp)) fun pairs fits => ?_
    exact gives_pure (Node.fits_mapping fits)
  · refine gives_step fun _ => ?_
    refine gives_bind (bounded.blockItems [] (fuel + 1) (Nat.le_refl _) (by simp)) fun items fits => ?_
    exact gives_pure ((Node.fits_sequence fits).mono (by omega))
  · refine gives_step fun _ => ?_
    refine gives_bind (bounded.blockPairs [] fuel (Nat.le_refl _) (by simp)) fun pairs fits => ?_
    exact gives_pure (Node.fits_mapping fits)
  · split
    · exact gives_failure
    · exact gives_pure Node.fits_scalar

theorem nodeBefore_succ (bounded : Bounded fuel) (ends : List TokenKind) (block entries : Bool)
    (mark : Mark) :
    Gives (Read.nodeBefore (fuel + 1) ends block entries mark) (Node.Fits (fuel + 3)) := by
  unfold Read.nodeBefore
  refine gives_step fun t => ?_
  split
  · exact gives_pure Node.fits_scalar
  · exact bounded.node block entries

theorem blockItems_succ (bounded : Bounded fuel) (seen : List Node) (bound : Nat)
    (le : fuel + 2 ≤ bound) (fits : ∀ n ∈ seen, n.Fits bound) :
    Gives (Read.blockItems (fuel + 1) seen) fun items => ∀ n ∈ items, n.Fits bound := by
  unfold Read.blockItems
  refine gives_step fun t => ?_
  split
  · refine gives_step fun _ => gives_bind (bounded.nodeBefore _ _ _ _) fun item fits' => ?_
    apply bounded.blockItems _ bound (by omega)
    exact List.forall_mem_cons.mpr ⟨fits'.mono le, fits⟩
  · exact gives_step fun _ => gives_pure (by simpa using fits)
  · exact gives_failure

theorem looseItems_succ (bounded : Bounded fuel) (seen : List Node) (bound : Nat)
    (le : fuel + 2 ≤ bound) (fits : ∀ n ∈ seen, n.Fits bound) :
    Gives (Read.looseItems (fuel + 1) seen) fun items => ∀ n ∈ items, n.Fits bound := by
  unfold Read.looseItems
  refine gives_step fun t => ?_
  split
  · refine gives_step fun _ => gives_bind (bounded.nodeBefore _ _ _ _) fun item fits' => ?_
    apply bounded.looseItems _ bound (by omega)
    exact List.forall_mem_cons.mpr ⟨fits'.mono le, fits⟩
  · exact gives_pure (by simpa using fits)

theorem blockPairs_succ (bounded : Bounded fuel) (seen : List (Node × Node)) (bound : Nat)
    (le : fuel + 1 ≤ bound) (fits : ∀ pair ∈ seen, pair.2.Fits bound) :
    Gives (Read.blockPairs (fuel + 1) seen) fun pairs => ∀ pair ∈ pairs, pair.2.Fits bound := by
  unfold Read.blockPairs
  refine gives_step fun t => ?_
  split
  · refine gives_step fun _ => gives_step fun key => ?_
    refine gives_bind bounded.blockValue fun value fits' => ?_
    apply bounded.blockPairs _ bound (by omega)
    exact List.forall_mem_cons.mpr ⟨fits'.mono le, fits⟩
  · exact gives_step fun _ => gives_pure (by simpa using fits)
  · exact gives_failure

theorem blockValue_succ (bounded : Bounded fuel) :
    Gives (Read.blockValue (fuel + 1)) (Node.Fits (fuel + 2)) := by
  unfold Read.blockValue
  refine gives_step fun t => ?_
  split
  · exact gives_step fun _ => bounded.nodeBefore _ _ _ _
  · exact gives_pure Node.fits_scalar

theorem flowItems_succ (bounded : Bounded fuel) (first : Bool) (seen : List Node) (bound : Nat)
    (le : fuel + 5 ≤ bound) (fits : ∀ n ∈ seen, n.Fits bound) :
    Gives (Read.flowItems (fuel + 1) first seen) fun items => ∀ n ∈ items, n.Fits bound := by
  unfold Read.flowItems
  refine gives_step fun _ => ?_
  extract_lets rest
  have each : ∀ u, Gives (rest u) fun items => ∀ n ∈ items, n.Fits bound := by
    intro u
    refine gives_step fun t => ?_
    split
    · exact gives_step fun _ => gives_pure (by simpa using fits)
    · refine gives_step fun _ => gives_bind bounded.flowPair fun pair fits' => ?_
      apply bounded.flowItems _ _ bound (by omega)
      have item : (Node.mapping t.start.pos [pair]).Fits (fuel + 5) :=
        Node.fits_mapping (by simpa using fits')
      exact List.forall_mem_cons.mpr ⟨item.mono le, fits⟩
    · refine gives_bind (bounded.node _ _) fun item fits' => ?_
      apply bounded.flowItems _ _ bound (by omega)
      exact List.forall_mem_cons.mpr ⟨fits'.mono (by omega), fits⟩
  split
  · exact gives_step fun _ => gives_step fun _ => gives_step each
  · exact each ()

theorem flowPair_succ (bounded : Bounded fuel) :
    Gives (Read.flowPair (fuel + 1)) fun pair => pair.2.Fits (fuel + 1) := by
  unfold Read.flowPair
  refine gives_step fun t => ?_
  split
  · exact gives_step fun _ => gives_bind bounded.flowPairValue fun value fits => gives_pure fits
  · exact gives_step fun _ => gives_bind bounded.flowPairValue fun value fits => gives_pure fits

theorem flowPairValue_succ (bounded : Bounded fuel) :
    Gives (Read.flowPairValue (fuel + 1)) (Node.Fits (fuel + 2)) := by
  unfold Read.flowPairValue
  refine gives_step fun t => ?_
  split
  · exact gives_step fun _ => bounded.nodeBefore _ _ _ _
  · exact gives_pure Node.fits_scalar

theorem flowPairs_succ (bounded : Bounded fuel) (first : Bool) (seen : List (Node × Node))
    (bound : Nat) (le : fuel + 1 ≤ bound) (fits : ∀ pair ∈ seen, pair.2.Fits bound) :
    Gives (Read.flowPairs (fuel + 1) first seen) fun pairs => ∀ pair ∈ pairs, pair.2.Fits bound := by
  unfold Read.flowPairs
  refine gives_step fun _ => ?_
  extract_lets rest
  have each : ∀ u, Gives (rest u) fun pairs => ∀ pair ∈ pairs, pair.2.Fits bound := by
    intro u
    refine gives_step fun t => ?_
    split
    · exact gives_step fun _ => gives_pure (by simpa using fits)
    · refine gives_step fun _ => gives_step fun _ => gives_step fun key => ?_
      refine gives_bind bounded.flowValue fun value fits' => ?_
      apply bounded.flowPairs _ _ bound (by omega)
      exact List.forall_mem_cons.mpr ⟨fits'.mono le, fits⟩
    · refine gives_step fun key => gives_step fun _ => ?_
      apply bounded.flowPairs _ _ bound (by omega)
      exact List.forall_mem_cons.mpr ⟨Node.fits_scalar, fits⟩
  split
  · exact gives_step fun _ => gives_step fun _ => gives_step each
  · exact each ()

theorem flowValue_succ (bounded : Bounded fuel) :
    Gives (Read.flowValue (fuel + 1)) (Node.Fits (fuel + 2)) := by
  unfold Read.flowValue
  refine gives_step fun t => ?_
  split
  · exact gives_step fun _ => gives_step fun _ => bounded.nodeBefore _ _ _ _
  · exact gives_step fun _ => gives_pure Node.fits_scalar

end Bounded

theorem bounded (fuel : Nat) : Bounded fuel := by
  induction fuel with
  | zero => exact bounded_zero
  | succ fuel ih =>
    exact ⟨ih.node_succ, ih.content_succ, ih.nodeBefore_succ, ih.blockItems_succ, ih.looseItems_succ,
      ih.blockPairs_succ, ih.blockValue_succ, ih.flowItems_succ, ih.flowPair_succ,
      ih.flowPairValue_succ, ih.flowPairs_succ, ih.flowValue_succ⟩

theorem root_gives (fuel : Nat) : Gives (root fuel) fun n => ∀ m ∈ n, m.Fits (fuel + 3) := by
  have found : Gives (do return some (← node fuel true false)) fun n => ∀ m ∈ n, m.Fits (fuel + 3) := by
    refine gives_bind ((bounded fuel).node true false) fun n fits => gives_pure ?_
    simpa using fits
  have empty (pos : Pos) : ∀ m ∈ some (Node.empty pos), m.Fits (fuel + 3) := by
    intro m same
    cases same
    exact Node.fits_scalar
  unfold root
  refine gives_step fun _ => gives_step fun t => ?_
  split
  · exact gives_pure (by simp)
  · refine gives_step fun seen => gives_step fun t => ?_
    split
    · refine gives_step fun _ => gives_step fun t => ?_
      split
      · exact gives_pure (empty _)
      · exact gives_pure (empty _)
      · exact gives_pure (empty _)
      · exact gives_pure (empty _)
      · exact found
    · exact gives_step fun _ => found

end Read

theorem Source.size_ofText (text : String) : (Source.ofText text).chars.size ≤ text.length + 1 := by
  have nonempty : (if text = "" then "\n" else text).length ≤ text.length + 1 := by
    split
    · exact Nat.le_add_left _ _
    · exact Nat.le_succ _
  refine Nat.le_trans ?_ nonempty
  rw [← String.length_toList]
  unfold ofText
  simp only [List.size_toArray]
  split
  · rename_i split
    rw [split]
    exact Nat.le_succ _
  · exact Nat.le_refl _

/-- The nodes of a text are nested less far than the text is long. -/
theorem Document.fits_of_root {text : String} {n : Node} (read : Document.ofText text = .root n) :
    n.Fits (8 * text.length + 75) := by
  have size := Source.size_ofText text
  unfold ofText at read
  extract_lets l reading at read
  have gives : reading.Gives fun n => ∀ m ∈ n, m.Fits (8 * l.source.chars.size + 67) := by
    refine Read.gives_step fun _ => Read.gives_bind (Read.root_gives _) fun node fits => ?_
    exact Read.gives_step fun _ => Read.gives_pure fits
  split at read
  · cases read
  · cases read
  · rename_i node r done
    cases read
    have fits := gives _ _ _ done n rfl
    have same : l.source.chars.size = (Source.ofText text).chars.size := rfl
    exact fits.mono (by omega)

end Yaml

namespace Expr

variable {R : Node → Expr → Prop} {n : Node} {e : Expr} {items : List Node}

theorem letDepth_chain_le {bound : Nat} (run : Run R items e)
    (each : ∀ {m e}, R m e → 2 * e.letDepth ≤ m.valueDepth)
    (within : ∀ m ∈ items, m.valueDepth ≤ bound) : 2 * e.letDepth ≤ bound := by
  induction run with
  | last one => exact Nat.le_trans (each one) (within _ List.mem_cons_self)
  | next one _ ih =>
    have first := Nat.le_trans (each one) (within _ List.mem_cons_self)
    have rest := ih fun m member => within m (List.mem_cons_of_mem _ member)
    simp only [letDepth]
    omega

theorem Form.letDepth_le (form : Form R n e)
    (each : ∀ {m e}, R m e → 2 * e.letDepth ≤ m.valueDepth) : 2 * e.letDepth ≤ n.valueDepth := by
  cases form with
  | seq key list run =>
    have le := letDepth_chain_le run each fun m member => list.valueDepth_le member
    have inside := key.has.valueDepth_lt
    omega
  | fn key ofArgs list params ofBody one =>
    have le := each one
    have inside := key.has.valueDepth_lt
    have inside' := ofBody.valueDepth_lt
    simp only [letDepth]
    omega
  | letIn key binds ofValue one ofBody other =>
    have le := each one
    have le' := each other
    have inside := key.has.valueDepth_lt
    have ofValue := ofValue.valueDepth_lt
    have ofBody := ofBody.valueDepth_lt
    simp only [letDepth]
    omega
  | record key list fields => cases fields <;> exact Nat.zero_le _
  | _ => exact Nat.zero_le _

theorem letDepth_le_of_ofNodeWithin {fuel : Nat} (done : ofNodeWithin fuel n = .ok e) :
    2 * e.letDepth ≤ n.valueDepth := by
  induction fuel generalizing n e with
  | zero => cases done
  | succ fuel ih => exact (ofNodeWithin_eq_ok_iff.mp done).letDepth_le ih

theorem ofText_eq_ok_iff {text : String} :
    ofText text = .ok e ↔ ∃ n, Yaml.Document.ofText text = .root n ∧ ofNode n = .ok e := by
  unfold ofText
  cases read : Yaml.Document.ofText text with
  | malformed => simp
  | empty => simp
  | root n =>
    simp only [Yaml.Document.root.injEq, exists_eq_left']
    cases ofNode n with
    | error err => simp [Except.mapError]
    | ok e' => simp [Except.mapError]

theorem letDepth_le_of_ofText {text : String} (done : ofText text = .ok e) :
    10 * e.letDepth ≤ 8 * text.length + 75 := by
  obtain ⟨n, read, decoded⟩ := ofText_eq_ok_iff.mp done
  have fits : 5 * n.valueDepth ≤ 8 * text.length + 75 := Yaml.Document.fits_of_root read
  have le := letDepth_le_of_ofNodeWithin decoded
  omega

end Expr

end LetPoly
