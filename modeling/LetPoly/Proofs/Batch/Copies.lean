import LetPoly.Inference.Batch
import LetPoly.Proofs.Batch.Inference
import LetPoly.Proofs.Workspace.History

namespace LetPoly

def shiftWord (amount n : Int) : Int := if IsWord n then wrap64 (n + amount) else n

theorem shiftWord_of_isWord {n : Int} (word : IsWord n) (amount : Int) :
    shiftWord amount n = wrap64 (n + amount) := if_pos word

theorem shiftWord_wrap64 (amount n : Int) : shiftWord amount (wrap64 n) = wrap64 (n + amount) := by
  rw [shiftWord_of_isWord (isWord_wrap64 n), wrap64_wrap64_add]

theorem wrap64_add_right_cancel {n k amount : Int} (word : IsWord n) (word' : IsWord k)
    (same : wrap64 (n + amount) = wrap64 (k + amount)) : n = k := by
  have back := congrArg (fun x => wrap64 (x + -amount)) same
  simp only [wrap64_wrap64_add, Int.add_neg_cancel_right] at back
  rwa [wrap64_of_isWord word, wrap64_of_isWord word'] at back

theorem shiftWord_injective (amount : Int) : Function.Injective (shiftWord amount) := by
  intro n k same
  by_cases word : IsWord n
  · by_cases word' : IsWord k
    · rw [shiftWord_of_isWord word, shiftWord_of_isWord word'] at same
      exact wrap64_add_right_cancel word word' same
    · rw [shiftWord_of_isWord word, shiftWord, if_neg word'] at same
      exact absurd (same ▸ isWord_wrap64 _) word'
  · by_cases word' : IsWord k
    · rw [shiftWord_of_isWord word', shiftWord, if_neg word] at same
      exact absurd (same ▸ isWord_wrap64 _) word
    · rwa [shiftWord, shiftWord, if_neg word, if_neg word'] at same

theorem shiftWord_next (amount n : Int) (word : IsWord n) :
    shiftWord amount (wrap64 (n + 1)) = wrap64 (shiftWord amount n + 1) := by
  rw [shiftWord_wrap64, shiftWord_of_isWord word, wrap64_wrap64_add]
  congr 1
  omega

theorem Expr.inferTop_present {e : Expr} (present : e.isMissing = false) (level : Int)
    (env : Bindings) (p : Supply) :
    ((e.inferTop level env p).result, (e.inferTop level env p).supply) = e.infer level env p := by
  simp only [inferTop, present, Bool.false_eq_true, if_false]
  rcases e.infer level env p with ⟨(⟨error, invalid⟩ | f) | typed, q⟩ <;> rfl

theorem Mirror.Twin.inferTop {m : Mirror} {p p' : Supply} {env env' : Bindings} {e : Expr}
    {level : Int} (twin : m.Twin p p') (scopes : Bindings.Alike (m.Scheme p.store.size) env env')
    (levels : m.Levels level e.letDepth) :
    m.Abides p ((e.inferTop level env p).result, (e.inferTop level env p).supply)
      ((e.inferTop level env' p').result, (e.inferTop level env' p').supply) := by
  cases absent : e.isMissing with
  | true =>
    cases e with
    | missing => exact ⟨twin, Nat.le_refl _, .failed none (.same _)⟩
    | _ => cases absent
  | false =>
    rw [Expr.inferTop_present absent, Expr.inferTop_present absent]
    exact twin.infer scopes levels

structure Batch where
  start : Supply
  level : Int
  env : Bindings

namespace Batch

variable {b : Batch} {loose : Prop} {index gap : Nat} {e : Expr} {es : List Expr} {s final : Store}

theorem offset_nonneg (index : Nat) : 0 ≤ index * batchIdRange :=
  Int.mul_nonneg (Int.natCast_nonneg _) (by decide)

def alone (b : Batch) (e : Expr) : Inferred := e.inferTop b.level b.env b.start

def firstId (b : Batch) (index : Nat) : Int := wrap64 (b.start.nextId + index * batchIdRange)

def Exhausts (b : Batch) (index : Nat) (e : Expr) : Prop :=
  wrap64 (b.firstId index + batchIdRange) <
    shiftWord (index * batchIdRange) (b.alone e).supply.nextId

def mirror (b : Batch) (loose : Prop) (index gap : Nat) : Mirror where
  start := b.start
  gap := gap
  number := shiftWord (index * batchIdRange)
  loose := loose
  injective := shiftWord_injective _
  next := shiftWord_next _

theorem mirror_twin (word : IsWord b.start.nextId) (ext : b.start.store.Extends s)
    (size : s.size = b.start.store.size + gap) :
    (b.mirror loose index gap).Twin b.start ⟨s, b.firstId index⟩ := by
  refine ⟨⟨.refl _, fun ref new inside => ?_, fun ref old => ext.cell ref old,
    fun ref new inside => ?_, by simpa [mirror] using size.ge⟩, size, ?_, 0, ?_, fun id => ?_⟩
  · exact absurd inside (Nat.not_lt.mpr new)
  · exact absurd inside (Nat.not_lt.mpr new)
  · exact (shiftWord_of_isWord word _).symm
  · simp only [mirror, Int.natCast_zero, Int.add_zero, wrap64_of_isWord word]
  · refine iff_of_false ?_ ?_
    · rintro ⟨ref, new, inside, -⟩
      exact absurd inside (Nat.not_lt.mpr new)
    · rintro ⟨j, less, -⟩
      omega

theorem mirror_scopes (closed : ∀ entry ∈ b.env.entries, b.start.store.Sealed loose entry.2)
    (N : Nat) : Bindings.Alike ((b.mirror loose index gap).Scheme N) b.env b.env := by
  refine List.forall₂_same.mpr fun entry member => ⟨rfl, ?_, .inr fun leaf met => ?_⟩
  · exact Mirror.mates_self fun ref met => ((closed entry member).holds _ met).1
  · exact (closed entry member).leaf met

structure Holds (b : Batch) (loose : Prop) (index gap : Nat) (e : Expr) (final : Store) : Prop where
  lies : (b.mirror loose index gap).Lies (b.alone e).supply.store final
  drawn : ∃ n, (b.mirror loose index gap).Drawn (b.alone e).supply n

theorem exhausts_iff {n : Nat} (drawn : (b.mirror loose index gap).Drawn (b.alone e).supply n) :
    b.Exhausts index e ↔ wrap64 (b.start.nextId + index * batchIdRange + batchIdRange) <
      wrap64 (b.start.nextId + index * batchIdRange + n) := by
  have next : (b.alone e).supply.nextId = wrap64 (b.start.nextId + n) := drawn.next
  rw [Exhausts, firstId, next, shiftWord_wrap64, wrap64_wrap64_add, Int.add_right_comm _ (n : Int)]

/-- The result for an expression alone, and that for it in the batch. -/
structure Copy (b : Batch) (loose : Prop) (index : Nat) (e : Expr) (gap : Nat)
    (typed typed' : Expr) (final : Store) : Prop extends b.Holds loose index gap e final where
  result : (b.alone e).result = .ok typed
  alike : typed.Alike ((b.mirror loose index gap).Own (b.alone e).supply.store.size) typed'

inductive Stops (b : Batch) (loose : Prop) (index : Nat) (e : Expr) : BatchError → Store → Prop
  | failed {gap : Nat} {error error' : InferError} {invalid : Option Expr} {final : Store}
    (holds : b.Holds loose index gap e final)
    (fails : (b.alone e).result = .error (.failed error invalid))
    (alike : error.Alike ((b.mirror loose index gap).Scheme (b.alone e).supply.store.size) error') :
    Stops b loose index e (.failed index error') final
  | fault {f : Fault} {final : Store} (fails : (b.alone e).result = .error (.fault f))
    (allowed : loose) : Stops b loose index e (.fault f) final
  | exhausted {gap : Nat} {typed : Expr} {final : Store} (holds : b.Holds loose index gap e final)
    (done : (b.alone e).result = .ok typed) (exhausts : b.Exhausts index e) :
    Stops b loose index e (.exhausted index) final

/-- What the runs for the expressions alone tell about the outcome of the batch from one of them
    on. -/
inductive Tells (b : Batch) (loose : Prop) :
    Nat → List Expr → Except BatchError (List Expr) → Store → Prop
  | nil {index : Nat} {final : Store} : Tells b loose index [] (.ok []) final
  | ok {index gap : Nat} {e typed typed' : Expr} {es results : List Expr} {final : Store}
    (copy : b.Copy loose index e gap typed typed' final) (fits : ¬ b.Exhausts index e)
    (rest : Tells b loose (index + 1) es (.ok results) final) :
    Tells b loose index (e :: es) (.ok (typed' :: results)) final
  | later {index : Nat} {e typed : Expr} {es : List Expr} {error : BatchError} {final : Store}
    (done : (b.alone e).result = .ok typed)
    (rest : Tells b loose (index + 1) es (.error error) final) :
    Tells b loose index (e :: es) (.error error) final
  | stop {index : Nat} {e : Expr} {es : List Expr} {error : BatchError} {final : Store}
    (stops : b.Stops loose index e error final) : Tells b loose index (e :: es) (.error error) final

namespace Tells

variable {results : List Expr} {error : BatchError}

theorem copies (tells : b.Tells loose index es (.ok results) final) :
    results.length = es.length ∧ ∀ i typed', results[i]? = some typed' → ∃ e gap typed,
      es[i]? = some e ∧ b.Copy loose (index + i) e gap typed typed' final ∧
        ¬ b.Exhausts (index + i) e := by
  generalize outcome : Except.ok results = r at tells
  induction tells generalizing results with
  | nil =>
    cases outcome
    exact ⟨rfl, fun i typed' inside => by simp at inside⟩
  | @ok index gap e typed typed' es results final copy fits rest ih =>
    cases outcome
    obtain ⟨length, each⟩ := ih rfl
    refine ⟨by rw [List.length_cons, List.length_cons, length], fun i other inside => ?_⟩
    cases i with
    | zero =>
      cases inside
      exact ⟨e, gap, typed, rfl, copy, fits⟩
    | succ i =>
      obtain ⟨e', gap, typed, inside, copy, fits⟩ := each i other inside
      rw [Nat.add_right_comm, Nat.add_assoc] at copy fits
      exact ⟨e', gap, typed, inside, copy, fits⟩
  | later | stop => cases outcome

theorem stops (tells : b.Tells loose index es (.error error) final) :
    ∃ i e, es[i]? = some e ∧
      (∀ j < i, ∀ earlier, es[j]? = some earlier → ∃ typed, (b.alone earlier).result = .ok typed) ∧
      b.Stops loose (index + i) e error final := by
  generalize outcome : Except.error error = r at tells
  induction tells generalizing error with
  | nil | ok => cases outcome
  | @later index e typed es error final done rest ih =>
    cases outcome
    obtain ⟨i, last, inside, before, stops⟩ := ih rfl
    rw [Nat.add_right_comm, Nat.add_assoc] at stops
    refine ⟨i + 1, last, inside, fun j less earlier inside => ?_, stops⟩
    cases j with
    | zero =>
      cases inside
      exact ⟨typed, done⟩
    | succ j => exact before j (by omega) earlier inside
  | @stop index e es error final stops =>
    cases outcome
    exact ⟨0, e, rfl, fun j less => absurd less (Nat.not_lt_zero j), stops⟩

theorem ok_iff {r : Except BatchError (List Expr)} (tells : b.Tells loose 0 es r final)
    (fits : ∀ i e gap, es[i]? = some e → b.Holds loose i gap e final → ¬ b.Exhausts i e) :
    (∃ results, r = .ok results) ↔ ∀ e ∈ es, ∃ typed, (b.alone e).result = .ok typed := by
  constructor
  · rintro ⟨results, rfl⟩ e member
    obtain ⟨length, each⟩ := tells.copies
    obtain ⟨i, less, same⟩ := List.mem_iff_getElem.mp member
    have inside : es[i]? = some e := by rw [List.getElem?_eq_getElem less, same]
    obtain ⟨e', gap, typed, inside', copy, -⟩ := each i _ (List.getElem?_eq_getElem (length ▸ less))
    cases inside.symm.trans inside'
    exact ⟨typed, copy.result⟩
  · intro done
    cases r with
    | ok results => exact ⟨results, rfl⟩
    | error error =>
      obtain ⟨i, e, inside, -, stops⟩ := tells.stops
      obtain ⟨typed, done⟩ := done e (List.mem_of_getElem? inside)
      cases stops with
      | failed _ fails | fault fails =>
        rw [fails] at done
        cases done
      | @exhausted gap _ _ holds _ exhausts =>
        rw [Nat.zero_add] at holds exhausts
        exact absurd exhausts (fits i e gap inside holds)

end Tells

theorem inferFrom_tells (word : IsWord b.start.nextId)
    (closed : ∀ entry ∈ b.env.entries, b.start.store.Sealed loose entry.2)
    (levels : ∀ e ∈ es, (b.mirror loose 0 0).Levels b.level e.letDepth)
    (ext : b.start.store.Extends s) (index : Nat) :
    let r := inferFrom b.level b.env b.start.nextId index es s
    b.Tells loose index es r.result r.store := by
  -- the store at hand is any extension of the start: what earlier expressions made in it stays unseen
  induction es generalizing index s with
  | nil => exact .nil
  | cons e es ih =>
    obtain ⟨here, later⟩ := List.forall_mem_cons.mp levels
    obtain ⟨gap, size⟩ : ∃ gap, s.size = b.start.store.size + gap :=
      Nat.exists_eq_add_of_le ext.size
    have twin : (b.mirror loose index gap).Twin b.start ⟨s, b.firstId index⟩ :=
      mirror_twin word ext size
    obtain ⟨twin, -, outcomes⟩ := twin.inferTop (mirror_scopes closed _) here
    have grown := (e.inferTop_grown b.level b.env ⟨s, b.firstId index⟩).kept
    have first : wrap64 (b.start.nextId + index * batchIdRange) = b.firstId index := rfl
    simp only [inferFrom, first]
    generalize e.inferTop b.level b.env ⟨s, b.firstId index⟩ = head at twin outcomes grown ⊢
    obtain ⟨result, supply, context, log⟩ := head
    have holds : b.Holds loose index gap e supply.store := ⟨twin.lies, twin.drawn⟩
    generalize single : (e.inferTop b.level b.env b.start).result = alone at outcomes
    cases outcomes with
    | failed invalid alike => exact .stop (.failed holds single alike)
    | fault f allowed => exact .stop (.fault single allowed)
    | ok alike =>
      have next : supply.nextId = shiftWord (index * batchIdRange) (b.alone e).supply.nextId :=
        twin.next
      -- both sides of the comparison are words, so it is made after they have come around
      have passes : b.Exhausts index e ↔ wrap64 (b.firstId index + batchIdRange) < supply.nextId := by
        rw [next, Exhausts]
      by_cases exhausts : b.Exhausts index e
      · simp only [passes.mp exhausts, if_true]
        exact .stop (.exhausted holds single exhausts)
      · simp only [mt passes.mpr exhausts, if_false]
        have rest := ih later (ext.trans grown) (index + 1)
        -- what this expression made lies where it is when the rest of the batch has run
        have kept : supply.store.Extends
            (inferFrom b.level b.env b.start.nextId (index + 1) es supply.store).store :=
          (inferFrom_grown _ _ es supply.store).kept
        generalize inferFrom b.level b.env b.start.nextId (index + 1) es supply.store = tail
          at rest kept ⊢
        obtain ⟨_ | results, final, tailLog⟩ := tail
        · exact .later single rest
        · exact .ok ⟨⟨holds.lies.extend kept, holds.drawn⟩, single, alike⟩ exhausts rest

end Batch

end LetPoly
