import DmlCompiler.Proofs.Renaming.Occurrences

/-! # Renaming as a substitution

Renaming takes one pass over the text, a name or a character in every round. What it writes is a
simultaneous substitution: what stands in place of a character is told by the text alone, wherever
names occur in it. So renaming twice is renaming once, as long as no name comes to be listed that
was not listed before. -/
namespace DmlCompiler.Sql

def spelled (renames : List (String × String)) : List (List Char × List Char) :=
  renames.map fun (old, new) => (old.toList, new.toList)

def rewritten (renames : List (List Char × List Char)) (text : List Char) : List Char :=
  (scan renames 0 text).flatMap
    fun
      | .inl c => [c]
      | .inr new => new

theorem renameParameters_toList (renames : List (String × String)) (text : String) :
    (renameParameters renames text).toList = rewritten (spelled renames) text.toList :=
  String.toList_ofList

variable {renames s t : List (List Char × List Char)} {text out : List Char}

/-- The rounds of the pass over what is left of a text, and what they write: a name that is found at
the front is replaced as a whole, and otherwise one character stays. The pass ends where nothing is
left. -/
inductive Pass (renames : List (List Char × List Char)) : List Char → List Char → Prop
  | done : Pass renames [] []
  | name {old new rest out : List Char} (found : nameAt? renames (old ++ rest) = some (old, new))
      (run : Pass renames rest out) : Pass renames (old ++ rest) (new ++ out)
  | char {c : Char} {rest out : List Char} (none : nameAt? renames (c :: rest) = none)
      (run : Pass renames rest out) : Pass renames (c :: rest) (c :: out)

theorem rewritten_char {c : Char} {rest : List Char} (none : nameAt? renames (c :: rest) = none) :
    rewritten renames (c :: rest) = c :: rewritten renames rest := by
  unfold rewritten
  rw [scan, none]
  rfl

namespace Distinguishes

variable (h : Distinguishes renames)
include h

/-- Behind a name that is found the text goes on. -/
theorem exists_of_found {old new : List Char} (found : nameAt? renames text = some (old, new)) :
    ∃ rest, text = old ++ rest := by
  obtain ⟨hr, same⟩ := h.nameAt?_eq_some.1 found
  obtain ⟨rest, eq, -⟩ := (occursAt_zero (h.isMarked _ hr)).2 same
  exact ⟨rest, eq⟩

theorem rewritten_name {old new rest : List Char}
    (found : nameAt? renames (old ++ rest) = some (old, new)) :
    rewritten renames (old ++ rest) = new ++ rewritten renames rest := by
  have some := (h.isMarked _ (h.nameAt?_eq_some.1 found).1).ne_nil
  obtain ⟨c, word, rfl⟩ := List.exists_cons_of_ne_nil some
  unfold rewritten
  rw [List.cons_append] at found ⊢
  rw [scan, found]
  simp only [List.length_cons, Nat.add_sub_cancel, scan_skip, List.flatMap_cons]

/-- The pass ends whatever the text, and has written the text with the names replaced then. -/
theorem pass_iff : Pass renames text out ↔ out = rewritten renames text := by
  constructor
  · intro run
    induction run with
    | done => rfl
    | name found _ ih => rw [h.rewritten_name found, ih]
    | char none _ ih => rw [rewritten_char none, ih]
  · rintro rfl
    -- a round leaves a shorter text
    induction length : text.length using Nat.strongRecOn generalizing text with
    | ind n ih =>
      cases text with
      | nil => exact .done
      | cons c rest =>
        cases found : nameAt? renames (c :: rest) with
        | none =>
          rw [rewritten_char found]
          exact .char found (ih rest.length (by simp [← length]) rfl)
        | some rename =>
          obtain ⟨old, new⟩ := rename
          obtain ⟨behind, eq⟩ := h.exists_of_found found
          have some := (h.isMarked _ (h.nameAt?_eq_some.1 found).1).ne_nil
          have shorter : behind.length < n := by
            rw [← length, eq, List.length_append]
            exact Nat.lt_add_of_pos_left (List.length_pos_iff.2 some)
          rw [eq] at found ⊢
          rw [h.rewritten_name found]
          exact .name found (ih behind.length shorter rfl)

end Distinguishes

/-- Names that are replaced by themselves leave the text as it is. -/
theorem Pass.unchanged (h : Distinguishes renames) (same : ∀ rename ∈ renames, rename.2 = rename.1)
    (run : Pass renames text out) : out = text := by
  induction run with
  | done => rfl
  | @name old new rest out found _ ih =>
    have kept : new = old := same _ (h.nameAt?_eq_some.1 found).1
    rw [ih, kept]
  | char _ _ ih => rw [ih]

/-- What is written for the characters of a text: for the first one of a name its replacement and
for the others nothing, and every character behind and between the names stays. -/
structure WrittenFor (renames : List (List Char × List Char)) (text : List Char)
    (written : List (List Char)) : Prop where
  length : written.length = text.length
  name : ∀ rename ∈ renames, ∀ place, OccursAt rename.1 text place →
    written[place]? = some rename.2
  inside : ∀ rename ∈ renames, ∀ place, OccursAt rename.1 text place →
    ∀ k, place < k → k < place + rename.1.length → written[k]? = some []
  outside : ∀ k c, text[k]? = some c → (∀ rename ∈ renames, ∀ place, OccursAt rename.1 text place →
    k < place ∨ place + rename.1.length ≤ k) → written[k]? = some [c]

namespace WrittenFor

variable {rest : List Char} {written : List (List Char)}

theorem kept (h : Distinguishes renames) (hw : WrittenFor renames rest written) {c : Char}
    (none : nameAt? renames (c :: rest) = none) :
    WrittenFor renames (c :: rest) ([c] :: written) := by
  have apart : ∀ rename ∈ renames, ¬ OccursAt rename.1 (c :: rest) 0 := by
    intro rename hr occurs
    rw [occursAt_zero (h.isMarked rename hr)] at occurs
    exact h.nameAt?_eq_none.1 none (occurs ▸ List.mem_map_of_mem hr)
  constructor
  · simp [hw.length]
  · intro rename hr place occurs
    cases place with
    | zero => exact absurd occurs (apart rename hr)
    | succ place => exact hw.name rename hr place occurs
  · intro rename hr place occurs k behind within
    cases place with
    | zero => exact absurd occurs (apart rename hr)
    | succ place =>
      obtain ⟨k, rfl⟩ := Nat.exists_eq_succ_of_ne_zero (Nat.ne_of_gt (Nat.zero_lt_of_lt behind))
      exact hw.inside rename hr place occurs k (by omega) (by omega)
  · intro k d stands free
    cases k with
    | zero => simpa using stands
    | succ k =>
      refine hw.outside k d stands fun rename hr place occurs => ?_
      have beside := free rename hr (place + 1) occurs
      omega

theorem replaced (h : Distinguishes renames) (hw : WrittenFor renames rest written)
    {old new : List Char} (found : nameAt? renames (old ++ rest) = some (old, new)) :
    WrittenFor renames (old ++ rest) (new :: List.replicate (old.length - 1) [] ++ written) := by
  obtain ⟨listed, front⟩ := h.nameAt?_eq_some.1 found
  have some : 0 < old.length := List.length_pos_iff.2 (h.isMarked _ listed).ne_nil
  let own := new :: List.replicate (old.length - 1) []
  have length : own.length = old.length := by
    simp only [own, List.length_cons, List.length_replicate]
    omega
  have behind (k : Nat) : (own ++ written)[old.length + k]? = written[k]? := by
    rw [← length, List.getElem?_append_right (by omega), Nat.add_sub_cancel_left]
  constructor
  · rw [List.length_append, length, hw.length, List.length_append]
  · intro rename hr place occurs
    rcases h.occursAt_cases listed front hr occurs with ⟨rfl, rfl⟩ | ⟨later, rfl, occursLater⟩
    · rfl
    · rw [behind]
      exact hw.name rename hr later occursLater
  · intro rename hr place occurs k after within
    rcases h.occursAt_cases listed front hr occurs with ⟨rfl, rfl⟩ | ⟨later, rfl, occursLater⟩
    · obtain ⟨k, rfl⟩ := Nat.exists_eq_succ_of_ne_zero (Nat.ne_of_gt after)
      have inner : k < old.length - 1 := by
        simp only at within
        omega
      rw [List.cons_append, List.getElem?_cons_succ,
        List.getElem?_append_left (by simpa using inner)]
      simp [inner]
    · obtain ⟨k, rfl⟩ := Nat.exists_eq_add_of_le (by omega : old.length ≤ k)
      rw [behind]
      exact hw.inside rename hr later occursLater k (by omega) (by omega)
  · intro k c stands free
    have first : OccursAt old (old ++ rest) 0 := (occursAt_zero (h.isMarked _ listed)).2 front
    have late : old.length ≤ k := by simpa using free (old, new) listed 0 first
    obtain ⟨k, rfl⟩ := Nat.exists_eq_add_of_le late
    rw [List.getElem?_append_right late, Nat.add_sub_cancel_left] at stands
    rw [behind]
    refine hw.outside k c stands fun rename hr place occurs => ?_
    have beside := free rename hr (old.length + place) ((occursAt_append old).2 occurs)
    omega

end WrittenFor

/-- Every pass is a simultaneous substitution. -/
theorem Pass.exists_written (h : Distinguishes renames) (run : Pass renames text out) :
    ∃ written, WrittenFor renames text written ∧ out = written.flatten := by
  induction run with
  | done =>
    have none : ∀ rename ∈ renames, ∀ place, ¬ OccursAt rename.1 [] place :=
      fun rename hr => not_occursAt_nil (h.isMarked rename hr)
    refine ⟨[], ⟨rfl, ?_, ?_, by simp⟩, rfl⟩
    · exact fun rename hr place occurs => absurd occurs (none rename hr place)
    · exact fun rename hr place occurs => absurd occurs (none rename hr place)
  | name found _ ih =>
    obtain ⟨written, hw, rfl⟩ := ih
    exact ⟨_, hw.replaced h found, by simp⟩
  | char none _ ih =>
    obtain ⟨written, hw, rfl⟩ := ih
    exact ⟨_, hw.kept h none, rfl⟩

/-- Words of the text are words of what is written, as a name begins with no word. -/
theorem Pass.word (h : Distinguishes renames) (new : ∀ rename ∈ renames, IsMarked rename.2)
    (run : Pass renames text out) : out.takeWhile Text.isWord = text.takeWhile Text.isWord := by
  induction run with
  | done => rfl
  | name found _ _ =>
    obtain ⟨listed, -⟩ := h.nameAt?_eq_some.1 found
    rw [(h.isMarked _ listed).takeWhile, (new _ listed).takeWhile]
  | char _ _ ih => rw [List.takeWhile_cons, List.takeWhile_cons, ih]

/-- The third list gives every name of the first one the name that the second one gives its new
name. -/
structure Composes (s t u : List (List Char × List Char)) : Prop where
  names : u.map Prod.fst = s.map Prod.fst
  step : ∀ old new, (old, new) ∈ s → ∃ newer, (new, newer) ∈ t ∧ (old, newer) ∈ u

theorem Composes.distinguishes {u : List (List Char × List Char)} (hu : Composes s t u)
    (hs : Distinguishes s) : Distinguishes u := by
  constructor
  · intro rename hr
    have mem : rename.1 ∈ s.map Prod.fst := hu.names ▸ List.mem_map_of_mem hr
    obtain ⟨first, listed, same⟩ := List.mem_map.1 mem
    exact same ▸ hs.isMarked first listed
  · rw [hu.names]
    exact hs.distinct

/-- A pass over what a pass has written is one pass, if it finds no name that the first one did not
find. -/
theorem Pass.composed {u : List (List Char × List Char)} (hs : Distinguishes s)
    (ht : Distinguishes t) (hu : Composes s t u) (run : Pass s text out)
    (known : ∀ rename ∈ t, ∀ place, OccursAt rename.1 text place → rename.1 ∈ s.map Prod.fst) :
    ∃ final, Pass t out final ∧ Pass u text final := by
  have new : ∀ rename ∈ s, IsMarked rename.2 := by
    intro rename hr
    obtain ⟨newer, listed, -⟩ := hu.step rename.1 rename.2 hr
    exact ht.isMarked _ listed
  have both := hu.distinguishes hs
  induction run with
  | done => exact ⟨[], .done, .done⟩
  | @name old new' rest out found run ih =>
    obtain ⟨listed, front⟩ := hs.nameAt?_eq_some.1 found
    obtain ⟨newer, second, whole⟩ := hu.step old new' listed
    obtain ⟨final, again, once⟩ := ih fun rename hr place occurs =>
      known rename hr (old.length + place) ((occursAt_append old).2 occurs)
    have ends : out.takeWhile Text.isWord = [] := by
      rw [run.word hs new, ← (hs.isMarked _ listed).marked_append]
      exact front
    refine ⟨newer ++ final, .name (ht.nameAt?_eq_some.2 ⟨second, ?_⟩) again,
      .name (both.nameAt?_eq_some.2 ⟨whole, front⟩) once⟩
    exact (ht.isMarked _ second).marked_append.2 ends
  | @char c rest out none run ih =>
    have unlisted := hs.nameAt?_eq_none.1 none
    obtain ⟨final, again, once⟩ := ih fun rename hr place occurs =>
      known rename hr (place + 1) occurs
    have same : marked (c :: out) = marked (c :: rest) := congrArg (c :: ·) (run.word hs new)
    refine ⟨c :: final, .char (ht.nameAt?_eq_none.2 ?_) again,
      .char (both.nameAt?_eq_none.2 (hu.names ▸ unlisted)) once⟩
    rw [same]
    intro mem
    obtain ⟨rename, hr, front⟩ := List.mem_map.1 mem
    have occurs := (occursAt_zero (ht.isMarked rename hr)).2 front.symm
    exact unlisted (front ▸ known rename hr 0 occurs)

/-- The old names are placeholders, of one dialect or of several, and none of them stands twice. -/
structure RenamesPlaceholders (renames : List (String × String)) : Prop where
  isPlaceholder : ∀ rename ∈ renames, IsPlaceholder rename.1.toList
  distinct : (renames.map Prod.fst).Nodup

theorem RenamesPlaceholders.distinguishes {renames : List (String × String)}
    (h : RenamesPlaceholders renames) : Distinguishes (spelled renames) := by
  constructor
  · intro rename hr
    obtain ⟨named, listed, rfl⟩ := List.mem_map.1 hr
    exact (h.isPlaceholder named listed).isMarked
  · have letters : (spelled renames).map Prod.fst = (renames.map Prod.fst).map String.toList := by
      simp [spelled, Function.comp_def]
    rw [letters]
    exact h.distinct.map fun _ _ same => String.toList_inj.1 same

/-- The first list and then the second one: every name gets the new name of its new name. -/
def andThen (s t : List (String × String)) : List (String × String) :=
  s.map fun (old, new) => (old, (t.lookup new).getD new)

theorem composes_andThen {s t : List (String × String)}
    (listed : ∀ rename ∈ s, rename.2 ∈ t.map Prod.fst) :
    Composes (spelled s) (spelled t) (spelled (andThen s t)) := by
  constructor
  · simp [spelled, andThen, Function.comp_def]
  · intro old new mem
    obtain ⟨⟨o, n⟩, hr, eq⟩ := List.mem_map.1 mem
    obtain ⟨rfl, rfl⟩ := Prod.mk.inj eq
    obtain ⟨later, hl, same⟩ := List.mem_map.1 (listed (o, n) hr)
    have found : (t.lookup n).isSome := List.lookup_isSome_iff.2 ⟨later, hl, by simp [same]⟩
    obtain ⟨newer, found⟩ := Option.isSome_iff_exists.1 found
    obtain ⟨front, back, rfl, -⟩ := List.lookup_eq_some_iff.1 found
    refine ⟨newer.toList, List.mem_map.2 ⟨(n, newer), by simp, rfl⟩, ?_⟩
    refine List.mem_map.2 ⟨(o, newer), List.mem_map.2 ⟨(o, n), hr, ?_⟩, rfl⟩
    simp [found]

/-- Renaming placeholders ends whatever the text, and substitutes all of them at once. Names that
stay leave the text as it is, and one renaming after another is a single one, unless the second
list has a name that occurs in the text and is not in the first. -/
theorem renaming_is_substitution {s : List (String × String)} (hs : RenamesPlaceholders s)
    (text : String) :
    (∀ out, Pass (spelled s) text.toList out ↔ out = (renameParameters s text).toList) ∧
    (∃ written, WrittenFor (spelled s) text.toList written ∧
      (renameParameters s text).toList = written.flatten) ∧
    ((∀ rename ∈ s, rename.2 = rename.1) → renameParameters s text = text) ∧
    ∀ t, RenamesPlaceholders t → (∀ rename ∈ s, rename.2 ∈ t.map Prod.fst) →
      (∀ rename ∈ t, ∀ place, OccursAt rename.1.toList text.toList place →
        rename.1 ∈ s.map Prod.fst) →
      renameParameters t (renameParameters s text) = renameParameters (andThen s t) text := by
  have first := hs.distinguishes
  have run : Pass (spelled s) text.toList (renameParameters s text).toList :=
    first.pass_iff.2 (renameParameters_toList s text)
  refine ⟨fun out => ?_, run.exists_written first, fun same => ?_, fun t ht listed known => ?_⟩
  · rw [first.pass_iff, renameParameters_toList]
  · refine String.toList_inj.1 (run.unchanged first fun rename hr => ?_)
    obtain ⟨named, hn, rfl⟩ := List.mem_map.1 hr
    exact congrArg String.toList (same named hn)
  · have composed := composes_andThen listed
    obtain ⟨final, again, once⟩ := run.composed first ht.distinguishes composed (by
      intro rename hr place occurs
      obtain ⟨named, hn, rfl⟩ := List.mem_map.1 hr
      obtain ⟨before, hb, same⟩ := List.mem_map.1 (known named hn place occurs)
      exact List.mem_map.2 ⟨_, List.mem_map_of_mem hb, congrArg String.toList same⟩)
    rw [← String.toList_inj, renameParameters_toList t, renameParameters_toList (andThen s t),
      ← ht.distinguishes.pass_iff.1 again, ← (composed.distinguishes first).pass_iff.1 once]

/-- The names are exchanged in a cycle, and then go on to another dialect. -/
theorem renaming_is_substitution_cycle :
    let s := [("@p1", "@p2"), ("@p2", "@p10"), ("@p10", "@p1")]
    let t := [("@p1", "$1"), ("@p2", "$2"), ("@p10", "$3")]
    RenamesPlaceholders s ∧ RenamesPlaceholders t ∧
      renameParameters t (renameParameters s "(@p1, @p2) OR @p10 = @p1x") =
        "($2, $3) OR $1 = @p1x" := by
  intro s t
  have placeholder (digits : List Char) (some : digits ≠ [])
      (all : ∀ c ∈ digits, '0' ≤ c ∧ c ≤ '9') : IsPlaceholder ("@p".toList ++ digits) :=
    ⟨.standard, digits, rfl, some, all⟩
  have named : ∀ name ∈ ["@p1", "@p2", "@p10"], IsPlaceholder name.toList := by
    simp only [List.forall_mem_cons]
    exact ⟨placeholder ['1'] (by simp) (by simp), placeholder ['2'] (by simp) (by simp),
      placeholder ['1', '0'] (by simp) (by simp), List.forall_mem_nil _⟩
  have hs : RenamesPlaceholders s := ⟨fun _ hr => named _ (List.mem_map_of_mem hr), by decide⟩
  have ht : RenamesPlaceholders t := ⟨fun _ hr => named _ (List.mem_map_of_mem hr), by decide⟩
  refine ⟨hs, ht, ?_⟩
  rw [(renaming_is_substitution hs _).2.2.2 t ht (by decide) (by simp [s, t])]
  decide +kernel

end DmlCompiler.Sql
