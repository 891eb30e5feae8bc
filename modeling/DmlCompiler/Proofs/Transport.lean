import DmlCompiler.Proofs.Transport.Carried

/-! # Queries survive transport

The text of a query is read as the query, or refused: there is no query whose text is read as another
one. It is refused if a number in it is not finite, or if it is nested too deeply. -/
namespace DmlCompiler

open Json

namespace SqlValue

/-- Of all values, only numbers that are not finite are lost in the text. -/
theorem survives_encode (v : SqlValue) :
    v.encode.AllLeaves (·.survives = true) ↔ ∀ x, v = .float x → x.isFinite = true := by
  cases v with
  | json d => simpa [encode, variant] using survives_document d
  | _ => simp [encode, variant, survives, ofNat]

/-- Every integer in the document of a value keeps to 64 bits. -/
theorem words_encode (v : SqlValue) :
    v.encode.AllLeaves fun leaf => ∀ n, leaf = .integer n → inWord n = true := by
  cases v with
  | smallInt n =>
    have low := n.le_toInt
    have high := n.toInt_lt
    simp [encode, variant, inWord]
    omega
  | integer n =>
    have low := n.le_toInt
    have high := n.toInt_lt
    simp [encode, variant, inWord]
    omega
  | bigInt n =>
    have low := n.le_toInt
    have high := n.toInt_lt
    simp [encode, variant, inWord]
    omega
  | bytes b =>
    have each (byte : UInt8) : inWord byte.toNat = true := by
      have high := byte.toNat_lt
      simp [inWord]
      omega
    simp [encode, variant, ofNat, each]
  | json d =>
    have normal := normalize_leaves d.value
    rw [d.normal] at normal
    have words : d.value.AllLeaves fun leaf => ∀ n, leaf = .integer n → inWord n = true := by
      refine normal.imp ?_
      rintro _ same n rfl
      by_contra beyond
      simp [Json.normalize, beyond] at same
    simpa [encode, variant] using words
  | _ => simp [encode, variant]

end SqlValue

namespace Query

variable {q : Query}

theorem survives_encode : q.encode.AllLeaves (·.survives = true) ↔
    ∀ x, SqlValue.float x ∈ q.carried → x.isFinite = true := by
  have beside : HoldsBeside (·.survives = true) := ⟨rfl, fun _ => rfl, fun _ => rfl, fun _ _ => rfl⟩
  rw [q.leaves_encode beside]
  simp only [SqlValue.survives_encode]
  constructor
  · intro all x there
    exact all _ there x rfl
  · rintro all _ there x rfl
    exact all x there

theorem words_encode (q : Query) :
    q.encode.AllLeaves fun leaf => ∀ n, leaf = .integer n → inWord n = true := by
  rw [q.leaves_encode]
  · exact fun v _ => v.words_encode
  · refine ⟨by simp, by simp, by simp, ?_⟩
    rintro n small _ ⟨⟩
    simp [inWord]
    omega

theorem encode_prints (q : Query)
    (reads : ∀ x, Json.float x ∈ q.encode.leaves → x.isFinite = true → x.ReadsBack) :
    q.encode.Prints := by
  intro leaf there
  cases leaf with
  | integer n =>
    have fits := q.words_encode _ there n rfl
    simpa [PrintsLeaf, inWord] using fits
  | float x => exact reads x there
  | _ => trivial

theorem document_toText (h : q.encode.Prints) :
    Transport.document q.toText = .ok (q.encode.received 127) := by
  rw [Transport.document, toText, parse?_text h]
  rfl

/-- The text of a query is read as the query if the whole of its document arrives, and refused
otherwise. -/
theorem ofText_toText (h : q.encode.Prints) :
    ofText q.toText = if q.encode.Arrives 127 then .ok q else .error .serialization := by
  have fits : Fits 127 ((q.encode.received 127).depth + 1) q.encode := Nat.lt_succ_self _
  have read : decode? (q.encode.received 127) = if q.encode.Arrives 127 then some q else none :=
    q.recovers fits
  unfold ofText Transport.read
  rw [document_toText h]
  simp only [bind, Except.bind, read]
  by_cases arrives : q.encode.Arrives 127
  · rw [if_pos arrives, if_pos arrives]
    rfl
  · rw [if_neg arrives, if_neg arrives]
    rfl

end Query

/-- The text of a query is read as the query if all numbers that it carries are finite and its
document nests at most 127 arrays and objects, and refused otherwise. Of a finite number in the
document it is taken for granted that its own text is read as the number: the digits of a long
decimal are rounded twice. -/
theorem query_read_back_or_refused (q : Query)
    (reads : ∀ x, Json.float x ∈ q.encode.leaves → x.isFinite = true → x.ReadsBack) :
    ((∀ x, SqlValue.float x ∈ q.carried → x.isFinite = true) ∧ q.encode.depth ≤ 127 →
      Query.ofText q.toText = .ok q) ∧
    (¬ ((∀ x, SqlValue.float x ∈ q.carried → x.isFinite = true) ∧ q.encode.depth ≤ 127) →
      Query.ofText q.toText = .error .serialization) := by
  have read := Query.ofText_toText (q.encode_prints reads)
  have whole : q.encode.Arrives 127 ↔
      (∀ x, SqlValue.float x ∈ q.carried → x.isFinite = true) ∧ q.encode.depth ≤ 127 := by
    rw [← Query.survives_encode, and_comm]
    rfl
  rw [read]
  constructor
  · intro arrives
    exact if_pos (whole.2 arrives)
  · intro lost
    exact if_neg fun arrives => lost (whole.1 arrives)

def leapDay : Timestamp :=
  ⟨⟨2024, 2, 29, by decide⟩, ⟨23, 59, 60, 500000000, by decide⟩⟩

def amountsQuery (amount : Binary64) : Query :=
  let paid : Expression := { Expression.bare "Payment" "paid" none with
    operator := some .greaterThan
    argument := some (.value (.timestamp leapDay)) }
  let amounts : Query := ⟨[⟨.from, ["Payment"], []⟩, ⟨.filter, [], [.predicate paid]⟩], none⟩
  let among : Expression := { Expression.bare "Order" "amount" none with
    operator := some .isIn
    argument := some (.list [.value (.float amount), .subQuery (.deferred amounts)]) }
  ⟨[⟨.filter, [], [.predicate among]⟩], some ⟨some 10, none⟩⟩

/-- One and a half arrives, infinity does not. -/
theorem query_read_back_or_refused_amounts :
    Query.ofText (amountsQuery ⟨0x3FF8000000000000⟩).toText = .ok (amountsQuery ⟨0x3FF8000000000000⟩) ∧
    Query.ofText (amountsQuery ⟨0x7FF0000000000000⟩).toText = .error .serialization := by
  have numbers (amount x : Binary64) (there : Json.float x ∈ (amountsQuery amount).encode.leaves) :
      x = amount := by
    let number? (leaf : Json) : Option Binary64 := match leaf with
      | .float x => some x
      | _ => none
    have only : (amountsQuery amount).encode.leaves.filterMap number? = [amount] := rfl
    have found : x ∈ (amountsQuery amount).encode.leaves.filterMap number? :=
      List.mem_filterMap.2 ⟨_, there, rfl⟩
    rw [only] at found
    exact List.mem_singleton.1 found
  have carried (amount : Binary64) :
      (amountsQuery amount).carried = [.float amount, .timestamp leapDay] := rfl
  constructor
  · apply (query_read_back_or_refused _ _).1
    · refine ⟨?_, by decide +kernel⟩
      rw [carried]
      intro x there
      have same : x = ⟨0x3FF8000000000000⟩ := by simpa using there
      rw [same]
      rfl
    · intro x there _
      rw [numbers _ x there]
      decide +kernel
  · apply (query_read_back_or_refused _ _).2
    · intro all
      have finite := all.1 ⟨0x7FF0000000000000⟩ (by rw [carried]; simp)
      revert finite
      decide
    · intro x there finite
      rw [numbers _ x there] at finite
      cases finite

end DmlCompiler
