import LetPoly.Proofs.Decoding.Nodes

namespace LetPoly

open Yaml (Node Decoded)

section Weakening

variable {α : Type} {R R' : Node → α → Prop} {bound : Nat} {items : List Node} {parts : List α}

theorem forall₂_weaken (weaker : ∀ {m a}, m.depth < bound → R m a → R' m a)
    (within : ∀ {m}, m ∈ items → m.depth < bound) (each : List.Forall₂ R items parts) :
    List.Forall₂ R' items parts := by
  have both := (List.forall₂_and_left items parts).mpr ⟨fun _ => within, each⟩
  exact both.imp fun m a h => weaker h.1 h.2

end Weakening

namespace Pattern

variable {sub : Node → Decoded Pattern} {n v : Node} {form : String} {p : Pattern}

theorem form_of_ofForm (key : n.Tagged form v) (done : ofForm sub n form v = .ok p) :
    Form (fun m p => sub m = .ok p) n p := by
  unfold ofForm at done
  split at done
  · simp only [bind_eq_ok_iff] at done
    obtain ⟨i, value, ⟨⟩⟩ := done
    exact .int key value
  · simp only [bind_eq_ok_iff, mapM_eq_ok_iff, Node.items_eq_ok_iff] at done
    obtain ⟨items, list, elems, each, ⟨⟩⟩ := done
    exact .tuple key list each
  · split at done
    · cases done
      exact .constant key
    · simp only [bind_eq_ok_iff] at done
      obtain ⟨pairs, known, m, ofName, name, text, done⟩ := done
      obtain ⟨items, args, list, each, rfl⟩ := (optional_eq_ok_iff known).mp done
      exact .constructor key ((Node.field_eq_ok_iff known).mp ofName) text list each
  · cases done

theorem ofForm_constructor {m : Node} {name : String} {items : List Node} {args : List Pattern}
    (ofName : v.Has "name" m) (text : m.string = .ok name) (list : v.MayList "args" items)
    (each : List.Forall₂ (fun m p => sub m = .ok p) items args) :
    ofForm sub n "constructor" v = .ok (.constructor n.pos name args) := by
  obtain ⟨pairs, known⟩ := ofName.mapping
  have ofName := (Node.field_eq_ok_iff known).mpr ofName
  obtain ⟨pos, rfl⟩ := Node.pairs_eq_ok_iff.mp known
  simp only [ofForm, bind_eq_ok_iff]
  refine ⟨pairs, known, m, ofName, name, text, ?_⟩
  exact (optional_eq_ok_iff known).mpr ⟨items, args, list, each, rfl⟩

theorem Form.scalar_or_tagged (form : Form (fun m p => sub m = .ok p) n p) :
    (∃ pos text plain tag, n = .scalar pos text plain tag ∧
      p = if text = "_" then .discard pos else .var pos text) ∨
    ∃ key v, n.Tagged key v ∧ ofForm sub n key v = .ok p := by
  cases form with
  | discard => exact .inl ⟨_, _, _, _, rfl, rfl⟩
  | var named => exact .inl ⟨_, _, _, _, rfl, (if_neg named).symm⟩
  | int key value =>
    refine .inr ⟨_, _, key, ?_⟩
    simp only [ofForm, bind_eq_ok_iff]
    exact ⟨_, value, rfl⟩
  | tuple key list each =>
    refine .inr ⟨_, _, key, ?_⟩
    simp only [ofForm, bind_eq_ok_iff, mapM_eq_ok_iff, Node.items_eq_ok_iff]
    exact ⟨_, list, _, each, rfl⟩
  | constant key => exact .inr ⟨_, _, key, rfl⟩
  | constructor key ofName text list each =>
    exact .inr ⟨_, _, key, ofForm_constructor ofName text list each⟩

theorem Form.weaken {R R' : Node → Pattern → Prop} (form : Form R n p)
    (weaker : ∀ {m p}, m.depth < n.depth → R m p → R' m p) : Form R' n p := by
  cases form with
  | discard => exact .discard
  | var named => exact .var named
  | int key value => exact .int key value
  | tuple key list each =>
    refine .tuple key list (forall₂_weaken weaker (fun member => ?_) each)
    exact Nat.lt_trans (list.depth_lt member) key.has.depth_lt
  | constant key => exact .constant key
  | constructor key ofName text list each =>
    refine .constructor key ofName text list (forall₂_weaken weaker (fun member => ?_) each)
    exact Nat.lt_trans (list.depth_lt member) key.has.depth_lt

theorem ofNodeWithin_eq_ok_iff {fuel : Nat} :
    ofNodeWithin (fuel + 1) n = .ok p ↔ Form (fun m p => ofNodeWithin fuel m = .ok p) n p := by
  constructor
  · intro done
    unfold ofNodeWithin at done
    split at done
    · cases done
      split
      · rename_i named
        subst named
        exact .discard
      · rename_i named
        exact .var named
    · simp only [bind_eq_ok_iff] at done
      obtain ⟨⟨form, v⟩, single, done⟩ := done
      exact form_of_ofForm (Node.single_eq_ok_iff.mp single) done
  · intro form
    obtain ⟨pos, text, plain, tag, rfl, rfl⟩ | ⟨key, v, tagged, done⟩ := form.scalar_or_tagged
    · rfl
    · have single := Node.single_eq_ok_iff.mpr tagged
      obtain ⟨pos, k, rfl, -⟩ := tagged
      simp only [ofNodeWithin, bind_eq_ok_iff]
      exact ⟨(key, v), single, done⟩

theorem denotes_of_ofNodeWithin {fuel : Nat} (done : ofNodeWithin fuel n = .ok p) :
    Denotes n p := by
  induction fuel generalizing n p with
  | zero => cases done
  | succ fuel ih => exact .intro ((ofNodeWithin_eq_ok_iff.mp done).weaken fun _ => ih)

theorem ofNodeWithin_of_denotes {fuel : Nat} (denotes : Denotes n p) (enough : n.depth ≤ fuel) :
    ofNodeWithin fuel n = .ok p := by
  induction fuel generalizing n p with
  | zero => cases n <;> cases enough
  | succ fuel ih =>
    cases denotes with
    | intro form =>
      refine ofNodeWithin_eq_ok_iff.mpr (form.weaken fun deeper denotes => ih denotes ?_)
      exact Nat.le_of_lt_succ (Nat.lt_of_lt_of_le deeper enough)

theorem ofNode_eq_ok_iff : ofNode n = .ok p ↔ Denotes n p :=
  ⟨denotes_of_ofNodeWithin, fun denotes => ofNodeWithin_of_denotes denotes (Nat.le_refl _)⟩

end Pattern

theorem Param.ofNode_eq_ok_iff {n : Node} {param : Param} :
    Param.ofNode n = .ok param ↔ Param.Denotes n param := by
  simp only [Param.ofNode, bind_eq_ok_iff]
  constructor
  · rintro ⟨name, text, ⟨⟩⟩
    exact .intro text
  · rintro ⟨text⟩
    exact ⟨_, text, rfl⟩

namespace Expr

section Layer

variable {sub : Node → Decoded Expr} {n v : Node} {form : String} {e : Expr}

theorem binder_eq_ok_iff {pairs : List (Node × Node)} {p : Pattern} (known : v.pairs = .ok pairs) :
    binder v pairs = .ok p ↔ Binds v p := by
  unfold binder
  constructor
  · intro done
    split at done
    · rename_i m found
      simp only [bind_eq_ok_iff] at done
      obtain ⟨name, text, ⟨⟩⟩ := done
      exact .name ((Node.lookup?_eq_some_iff_has known).mp found) text
    · rename_i m unnamed found
      exact .pattern ((Node.lookup?_eq_none_iff_lacks known).mp unnamed)
        ((Node.lookup?_eq_some_iff_has known).mp found) (Pattern.ofNode_eq_ok_iff.mp done)
    · cases done
  · rintro (⟨ofName, text⟩ | ⟨unnamed, ofPattern, denotes⟩)
    · rw [(Node.lookup?_eq_some_iff_has known).mpr ofName]
      simp only [bind_eq_ok_iff]
      exact ⟨_, text, rfl⟩
    · rw [(Node.lookup?_eq_none_iff_lacks known).mpr unnamed,
        (Node.lookup?_eq_some_iff_has known).mpr ofPattern]
      exact Pattern.ofNode_eq_ok_iff.mpr denotes

theorem clauseOf_eq_ok_iff {c : Clause} :
    clauseOf sub n = .ok c ↔ Branch (fun m e => sub m = .ok e) n c := by
  simp only [clauseOf, bind_eq_ok_iff, mapM_eq_ok_iff, Node.items_eq_ok_iff,
    Pattern.ofNode_eq_ok_iff]
  constructor
  · rintro ⟨pairs, known, p, ofPatterns, b, ofBody, items, list, patterns, each, body, one, ⟨⟩⟩
    rw [Node.field_eq_ok_iff known] at ofPatterns ofBody
    exact .intro ofPatterns list each ofBody one
  · rintro ⟨ofPatterns, list, each, ofBody, one⟩
    obtain ⟨pairs, known⟩ := ofBody.mapping
    rw [← Node.field_eq_ok_iff known] at ofPatterns ofBody
    exact ⟨pairs, known, _, ofPatterns, _, ofBody, _, list, _, each, _, one, rfl⟩

theorem recordFields_eq_ok_iff {items : List Node} {pos : Pos} :
    items.foldrM (recordField sub) (.recordNil pos) = .ok e ↔
      Fields (fun m e => sub m = .ok e) items pos e := by
  induction items generalizing e with
  | nil =>
    constructor
    · rintro ⟨⟩
      exact .done
    · rintro ⟨⟩
      rfl
  | cons n ns ih =>
    simp only [List.foldrM_cons, recordField, bind_eq_ok_iff, ih]
    constructor
    · rintro ⟨tail, rest, pairs, known, l, ofLabel, v, ofValue, label, text, value, one, ⟨⟩⟩
      rw [Node.field_eq_ok_iff known] at ofLabel ofValue
      exact .next ofLabel text ofValue one rest
    · rintro (_ | ⟨ofLabel, text, ofValue, one, rest⟩)
      obtain ⟨pairs, known⟩ := ofLabel.mapping
      rw [← Node.field_eq_ok_iff known] at ofLabel ofValue
      exact ⟨_, rest, pairs, known, _, ofLabel, _, ofValue, _, text, _, one, rfl⟩

theorem run_iff_chain {items : List Node} :
    Run (fun m e => sub m = .ok e) items e ↔ ∃ m ms first rest, items = m :: ms ∧
      sub m = .ok first ∧ List.Forall₂ (fun m e => sub m = .ok e) ms rest ∧ first.chain rest = e := by
  constructor
  · intro run
    induction run with
    | last one => exact ⟨_, _, _, _, rfl, one, .nil, rfl⟩
    | next one _ ih =>
      obtain ⟨m, ms, first, rest, rfl, second, each, rfl⟩ := ih
      exact ⟨_, _, _, _, rfl, one, .cons second each, rfl⟩
  · rintro ⟨m, ms, first, rest, rfl, one, each, rfl⟩
    induction each generalizing m first with
    | nil => exact .last one
    | cons second _ ih => exact .next one (ih _ _ second)

theorem sequence_eq_ok_iff :
    (do match ← v.items with
      | [] => v.fail .emptySequence
      | first :: rest =>
        let first ← sub first
        return first.chain (← rest.mapM sub)) = Except.ok e ↔
      ∃ items, v.Lists items ∧ Run (fun m e => sub m = .ok e) items e := by
  simp only [bind_eq_ok_iff, Node.items_eq_ok_iff, run_iff_chain]
  constructor
  · rintro ⟨items, list, done⟩
    refine ⟨items, list, ?_⟩
    split at done
    · cases done
    · simp only [bind_eq_ok_iff, mapM_eq_ok_iff] at done
      obtain ⟨first, one, rest, each, ⟨⟩⟩ := done
      exact ⟨_, _, first, rest, rfl, one, each, rfl⟩
  · rintro ⟨items, list, m, ms, first, rest, rfl, one, each, rfl⟩
    refine ⟨_, list, ?_⟩
    simp only [bind_eq_ok_iff, mapM_eq_ok_iff]
    exact ⟨first, one, rest, each, rfl⟩

theorem form_of_ofForm (key : n.Tagged form v) (done : ofForm sub n form v = .ok e) :
    Form (fun m e => sub m = .ok e) n e := by
  unfold ofForm at done
  split at done
  case h_6 =>
    cases done
    exact .nil key
  case h_19 => cases done
  case h_8 => exact (sequence_eq_ok_iff.mp done).elim fun _ h => .seq key h.1 h.2
  all_goals simp only [bind_eq_ok_iff, mapM_eq_ok_iff, Node.items_eq_ok_iff, Param.ofNode_eq_ok_iff,
    clauseOf_eq_ok_iff, recordFields_eq_ok_iff] at done
  case h_1 =>
    obtain ⟨i, value, ⟨⟩⟩ := done
    exact .int key value
  case h_2 =>
    obtain ⟨x, value, ⟨⟩⟩ := done
    exact .float key value
  case h_3 =>
    obtain ⟨s, value, ⟨⟩⟩ := done
    exact .string key value
  case h_4 =>
    obtain ⟨s, value, ⟨⟩⟩ := done
    exact .atom key value
  case h_5 =>
    obtain ⟨name, value, ⟨⟩⟩ := done
    exact .var key value
  case h_7 =>
    obtain ⟨name, value, ⟨⟩⟩ := done
    exact .constructor key value
  case h_9 =>
    obtain ⟨pairs, known, a, ofArgs, b, ofBody, items, list, params, each, body, one, ⟨⟩⟩ := done
    rw [Node.field_eq_ok_iff known] at ofArgs ofBody
    exact .fn key ofArgs list each ofBody one
  case h_10 =>
    obtain ⟨pairs, known, w, ofValue, b, ofBody, p, binds, value, one, body, other, ⟨⟩⟩ := done
    rw [Node.field_eq_ok_iff known] at ofValue ofBody
    exact .letIn key ((binder_eq_ok_iff known).mp binds) ofValue one ofBody other
  case h_11 =>
    obtain ⟨pairs, known, f, ofCallee, callee, one, done⟩ := done
    obtain ⟨items, args, list, each, rfl⟩ := (optional_eq_ok_iff known).mp done
    rw [Node.field_eq_ok_iff known] at ofCallee
    exact .call key ofCallee one list each
  case h_12 =>
    obtain ⟨items, list, elems, each, ⟨⟩⟩ := done
    exact .tuple key list each
  case h_13 =>
    obtain ⟨pairs, known, o, ofOp, l, ofLeft, r, ofRight, op, text, left, one, right, other, ⟨⟩⟩ := done
    rw [Node.field_eq_ok_iff known] at ofOp ofLeft ofRight
    exact .binop key ofOp text ofLeft one ofRight other
  case h_14 =>
    obtain ⟨pairs, known, h, ofHead, t, ofTail, head, one, tail, other, ⟨⟩⟩ := done
    rw [Node.field_eq_ok_iff known] at ofHead ofTail
    exact .cons key ofHead one ofTail other
  case h_15 =>
    obtain ⟨pairs, known, s, ofSubjects, c, ofClauses, items, list, branches, list', subjects, each,
      clauses, each', ⟨⟩⟩ := done
    rw [Node.field_eq_ok_iff known] at ofSubjects ofClauses
    exact .caseOf key ofSubjects list each ofClauses list' each'
  case h_16 =>
    obtain ⟨items, list, fields⟩ := done
    exact .record key list fields
  case h_17 =>
    obtain ⟨pairs, known, r, ofRecord, l, ofLabel, label, text, record, one, ⟨⟩⟩ := done
    rw [Node.field_eq_ok_iff known] at ofRecord ofLabel
    exact .select key ofRecord one ofLabel text
  case h_18 =>
    obtain ⟨pairs, known, m, ofHome, l, ofLabel, home, text, label, text', ⟨⟩⟩ := done
    rw [Node.field_eq_ok_iff known] at ofHome ofLabel
    exact .member key ofHome text ofLabel text'

theorem Form.tagged (form : Form (fun m e => sub m = .ok e) n e) :
    ∃ key v, n.Tagged key v ∧ ofForm sub n key v = .ok e := by
  cases form with
  | int key value | float key value | string key value | atom key value | var key value
  | constructor key value =>
    refine ⟨_, _, key, ?_⟩
    simp only [ofForm, bind_eq_ok_iff]
    exact ⟨_, value, rfl⟩
  | nil key => exact ⟨_, _, key, rfl⟩
  | seq key list run => exact ⟨_, _, key, sequence_eq_ok_iff.mpr ⟨_, list, run⟩⟩
  | fn key ofArgs list each ofBody one =>
    obtain ⟨pairs, known⟩ := ofArgs.mapping
    rw [← Node.field_eq_ok_iff known] at ofArgs ofBody
    refine ⟨_, _, key, ?_⟩
    simp only [ofForm, bind_eq_ok_iff, mapM_eq_ok_iff, Node.items_eq_ok_iff, Param.ofNode_eq_ok_iff]
    exact ⟨pairs, known, _, ofArgs, _, ofBody, _, list, _, each, _, one, rfl⟩
  | letIn key binds ofValue one ofBody other =>
    obtain ⟨pairs, known⟩ := ofValue.mapping
    rw [← Node.field_eq_ok_iff known] at ofValue ofBody
    rw [← binder_eq_ok_iff known] at binds
    refine ⟨_, _, key, ?_⟩
    simp only [ofForm, bind_eq_ok_iff]
    exact ⟨pairs, known, _, ofValue, _, ofBody, _, binds, _, one, _, other, rfl⟩
  | call key ofCallee one list each =>
    obtain ⟨pairs, known⟩ := ofCallee.mapping
    rw [← Node.field_eq_ok_iff known] at ofCallee
    refine ⟨_, _, key, ?_⟩
    simp only [ofForm, bind_eq_ok_iff]
    refine ⟨pairs, known, _, ofCallee, _, one, ?_⟩
    exact (optional_eq_ok_iff known).mpr ⟨_, _, list, each, rfl⟩
  | tuple key list each =>
    refine ⟨_, _, key, ?_⟩
    simp only [ofForm, bind_eq_ok_iff, mapM_eq_ok_iff, Node.items_eq_ok_iff]
    exact ⟨_, list, _, each, rfl⟩
  | binop key ofOp text ofLeft one ofRight other =>
    obtain ⟨pairs, known⟩ := ofOp.mapping
    rw [← Node.field_eq_ok_iff known] at ofOp ofLeft ofRight
    refine ⟨_, _, key, ?_⟩
    simp only [ofForm, bind_eq_ok_iff]
    exact ⟨pairs, known, _, ofOp, _, ofLeft, _, ofRight, _, text, _, one, _, other, rfl⟩
  | cons key ofHead one ofTail other =>
    obtain ⟨pairs, known⟩ := ofHead.mapping
    rw [← Node.field_eq_ok_iff known] at ofHead ofTail
    refine ⟨_, _, key, ?_⟩
    simp only [ofForm, bind_eq_ok_iff]
    exact ⟨pairs, known, _, ofHead, _, ofTail, _, one, _, other, rfl⟩
  | caseOf key ofSubjects list each ofClauses list' each' =>
    obtain ⟨pairs, known⟩ := ofSubjects.mapping
    rw [← Node.field_eq_ok_iff known] at ofSubjects ofClauses
    refine ⟨_, _, key, ?_⟩
    simp only [ofForm, bind_eq_ok_iff, mapM_eq_ok_iff, Node.items_eq_ok_iff, clauseOf_eq_ok_iff]
    exact ⟨pairs, known, _, ofSubjects, _, ofClauses, _, list, _, list', _, each, _, each', rfl⟩
  | record key list fields =>
    refine ⟨_, _, key, ?_⟩
    simp only [ofForm, bind_eq_ok_iff, Node.items_eq_ok_iff, recordFields_eq_ok_iff]
    exact ⟨_, list, fields⟩
  | select key ofRecord one ofLabel text =>
    obtain ⟨pairs, known⟩ := ofRecord.mapping
    rw [← Node.field_eq_ok_iff known] at ofRecord ofLabel
    refine ⟨_, _, key, ?_⟩
    simp only [ofForm, bind_eq_ok_iff]
    exact ⟨pairs, known, _, ofRecord, _, ofLabel, _, text, _, one, rfl⟩
  | member key ofHome text ofLabel text' =>
    obtain ⟨pairs, known⟩ := ofHome.mapping
    rw [← Node.field_eq_ok_iff known] at ofHome ofLabel
    refine ⟨_, _, key, ?_⟩
    simp only [ofForm, bind_eq_ok_iff]
    exact ⟨pairs, known, _, ofHome, _, ofLabel, _, text, _, text', rfl⟩

end Layer

section Weakening

variable {R R' : Node → Expr → Prop} {bound : Nat} {n : Node} {items : List Node} {e : Expr}

theorem Run.weaken (run : Run R items e) (weaker : ∀ {m e}, m.depth < bound → R m e → R' m e)
    (within : ∀ {m}, m ∈ items → m.depth < bound) : Run R' items e := by
  induction run with
  | last one => exact .last (weaker (within List.mem_cons_self) one)
  | next one _ ih =>
    have one := weaker (within List.mem_cons_self) one
    exact .next one (ih fun member => within (List.mem_cons_of_mem _ member))

theorem Fields.weaken {pos : Pos} (fields : Fields R items pos e)
    (weaker : ∀ {m e}, m.depth < bound → R m e → R' m e)
    (within : ∀ {m}, m ∈ items → m.depth < bound) : Fields R' items pos e := by
  induction fields with
  | done => exact .done
  | next ofLabel text ofValue one _ ih =>
    have deep := Nat.lt_trans ofValue.depth_lt (within List.mem_cons_self)
    exact .next ofLabel text ofValue (weaker deep one)
      (ih fun member => within (List.mem_cons_of_mem _ member))

theorem Branch.weaken {c : Clause} (branch : Branch R n c)
    (weaker : ∀ {m e}, m.depth < n.depth → R m e → R' m e) : Branch R' n c := by
  cases branch with
  | intro ofPatterns list each ofBody one =>
    exact .intro ofPatterns list each ofBody (weaker ofBody.depth_lt one)

theorem Form.weaken (form : Form R n e) (weaker : ∀ {m e}, m.depth < n.depth → R m e → R' m e) :
    Form R' n e := by
  have under {v : Node} {key : String} (tagged : n.Tagged key v) {m : Node} {e : Expr}
      (deep : m.depth < v.depth) : R m e → R' m e :=
    weaker (Nat.lt_trans deep tagged.has.depth_lt)
  cases form with
  | int key value => exact .int key value
  | float key value => exact .float key value
  | string key value => exact .string key value
  | atom key value => exact .atom key value
  | var key value => exact .var key value
  | nil key => exact .nil key
  | constructor key value => exact .constructor key value
  | seq key list run => exact .seq key list (run.weaken (under key) list.depth_lt)
  | fn key ofArgs list each ofBody one =>
    exact .fn key ofArgs list each ofBody (under key ofBody.depth_lt one)
  | letIn key binds ofValue one ofBody other =>
    exact .letIn key binds ofValue (under key ofValue.depth_lt one) ofBody
      (under key ofBody.depth_lt other)
  | call key ofCallee one list each =>
    exact .call key ofCallee (under key ofCallee.depth_lt one) list
      (forall₂_weaken (under key) list.depth_lt each)
  | tuple key list each => exact .tuple key list (forall₂_weaken (under key) list.depth_lt each)
  | binop key ofOp text ofLeft one ofRight other =>
    exact .binop key ofOp text ofLeft (under key ofLeft.depth_lt one) ofRight
      (under key ofRight.depth_lt other)
  | cons key ofHead one ofTail other =>
    exact .cons key ofHead (under key ofHead.depth_lt one) ofTail (under key ofTail.depth_lt other)
  | caseOf key ofSubjects list each ofClauses list' each' =>
    have subjects := forall₂_weaken (under key)
      (fun member => Nat.lt_trans (list.depth_lt member) ofSubjects.depth_lt) each
    have clauses := forall₂_weaken
      (fun deep branch => branch.weaken fun deeper => under key (Nat.lt_trans deeper deep))
      (fun member => Nat.lt_trans (list'.depth_lt member) ofClauses.depth_lt) each'
    exact .caseOf key ofSubjects list subjects ofClauses list' clauses
  | record key list fields => exact .record key list (fields.weaken (under key) list.depth_lt)
  | select key ofRecord one ofLabel text =>
    exact .select key ofRecord (under key ofRecord.depth_lt one) ofLabel text
  | member key ofHome text ofLabel text' => exact .member key ofHome text ofLabel text'

end Weakening

variable {n : Node} {e : Expr} {fuel : Nat}

theorem ofNodeWithin_eq_ok_iff :
    ofNodeWithin (fuel + 1) n = .ok e ↔ Form (fun m e => ofNodeWithin fuel m = .ok e) n e := by
  simp only [ofNodeWithin, bind_eq_ok_iff]
  constructor
  · rintro ⟨⟨form, v⟩, single, done⟩
    exact form_of_ofForm (Node.single_eq_ok_iff.mp single) done
  · intro form
    obtain ⟨key, v, tagged, done⟩ := form.tagged
    exact ⟨(key, v), Node.single_eq_ok_iff.mpr tagged, done⟩

theorem denotes_of_ofNodeWithin (done : ofNodeWithin fuel n = .ok e) : Denotes n e := by
  induction fuel generalizing n e with
  | zero => cases done
  | succ fuel ih => exact .intro ((ofNodeWithin_eq_ok_iff.mp done).weaken fun _ => ih)

theorem ofNodeWithin_of_denotes (denotes : Denotes n e) (enough : n.depth ≤ fuel) :
    ofNodeWithin fuel n = .ok e := by
  induction fuel generalizing n e with
  | zero => cases n <;> cases enough
  | succ fuel ih =>
    cases denotes with
    | intro form =>
      refine ofNodeWithin_eq_ok_iff.mpr (form.weaken fun deeper denotes => ih denotes ?_)
      exact Nat.le_of_lt_succ (Nat.lt_of_lt_of_le deeper enough)

theorem ofNode_eq_ok_iff : ofNode n = .ok e ↔ Denotes n e :=
  ⟨denotes_of_ofNodeWithin, fun denotes => ofNodeWithin_of_denotes denotes (Nat.le_refl _)⟩

end Expr

end LetPoly
