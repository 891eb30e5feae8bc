import Mathlib.Data.List.Forall2

/-! # Results of lists

What is known of the items of a list when checks, readings or a search over it have succeeded. -/
namespace DmlCompiler

variable {α β ε : Type}

theorem bind_eq_ok {x : Except ε α} {f : α → Except ε β} {b : β} :
    x >>= f = .ok b ↔ ∃ a, x = .ok a ∧ f a = .ok b := by
  cases x with
  | error e => exact ⟨nofun, fun ⟨_, h, _⟩ => nomatch h⟩
  | ok a => exact ⟨fun h => ⟨a, rfl, h⟩, fun ⟨_, rfl, h⟩ => h⟩

/-- Checks in sequence all pass, or the first one that does not gives the failure. -/
theorem checks_cases (check : α → Except ε Unit) : ∀ xs : List α,
    (xs.forM check = .ok () ∧ ∀ x ∈ xs, check x = .ok ()) ∨
    ∃ front x back e, xs = front ++ x :: back ∧ (∀ y ∈ front, check y = .ok ()) ∧
      check x = .error e ∧ xs.forM check = .error e
  | [] => .inl ⟨rfl, List.forall_mem_nil _⟩
  | x :: xs => by
    have run : (x :: xs).forM check = check x >>= fun _ => xs.forM check := rfl
    rw [run]
    cases first : check x with
    | error e => exact .inr ⟨[], x, xs, e, rfl, List.forall_mem_nil _, first, rfl⟩
    | ok =>
      obtain ⟨passed, all⟩ | ⟨front, y, back, e, eq, earlier, failed, run⟩ := checks_cases check xs
      · exact .inl ⟨passed, List.forall_mem_cons.2 ⟨first, all⟩⟩
      · exact .inr ⟨x :: front, y, back, e, by rw [eq]; rfl,
          List.forall_mem_cons.2 ⟨first, earlier⟩, failed, run⟩

theorem mapM_eq_ok {f : α → Except ε β} : ∀ {as : List α} {bs : List β},
    as.mapM f = .ok bs ↔ List.Forall₂ (fun a b => f a = .ok b) as bs
  | [], bs => by
    rw [List.mapM_nil, List.forall₂_nil_left_iff]
    exact ⟨fun h => (Except.ok.inj h).symm, fun h => h ▸ rfl⟩
  | a :: as, bs => by
    rw [List.mapM_cons, bind_eq_ok, List.forall₂_cons_left_iff]
    constructor
    · rintro ⟨b, first, h⟩
      obtain ⟨bs', rest, eq⟩ := bind_eq_ok.1 h
      exact ⟨b, bs', first, mapM_eq_ok.1 rest, (Except.ok.inj eq).symm⟩
    · rintro ⟨b, bs', first, rest, rfl⟩
      exact ⟨b, first, bind_eq_ok.2 ⟨bs', mapM_eq_ok.2 rest, rfl⟩⟩

theorem mapM_eq_ok_iff {f : α → Except ε β} {known : α → Prop} {g : α → β}
    (each : ∀ a b, f a = .ok b ↔ known a ∧ g a = b) {as : List α} {bs : List β} :
    as.mapM f = .ok bs ↔ (∀ a ∈ as, known a) ∧ as.map g = bs := by
  rw [mapM_eq_ok]
  induction as generalizing bs with
  | nil => simp [eq_comm]
  | cons a as ih =>
    rw [List.forall₂_cons_left_iff, List.forall_mem_cons, List.map_cons]
    constructor
    · rintro ⟨_, _, first, rest, rfl⟩
      obtain ⟨isKnown, rfl⟩ := (each a _).1 first
      obtain ⟨areKnown, rfl⟩ := ih.1 rest
      exact ⟨⟨isKnown, areKnown⟩, rfl⟩
    · rintro ⟨⟨isKnown, areKnown⟩, rfl⟩
      exact ⟨_, _, (each a _).2 ⟨isKnown, rfl⟩, ih.2 ⟨areKnown, rfl⟩, rfl⟩

theorem mem_of_mapM {f : α → Except ε β} {as : List α} {bs : List β} (h : as.mapM f = .ok bs)
    (b : β) (mem : b ∈ bs) : ∃ a ∈ as, f a = .ok b := by
  have each := mapM_eq_ok.1 h
  clear h
  induction each with
  | nil => cases mem
  | cons first _ ih =>
    rcases List.mem_cons.1 mem with rfl | mem
    · exact ⟨_, List.mem_cons_self, first⟩
    · obtain ⟨a, listed, eq⟩ := ih mem
      exact ⟨a, List.mem_cons_of_mem _ listed, eq⟩

theorem find?_name {a : α} {all : List α} {name : α → String} (listed : a ∈ all)
    (distinct : (all.map name).Nodup) : all.find? (fun b => name b == name a) = some a := by
  induction all with
  | nil => cases listed
  | cons b all ih =>
    rw [List.map_cons, List.nodup_cons] at distinct
    by_cases same : b = a
    · subst same
      simp
    · have behind : a ∈ all := (List.mem_cons.1 listed).resolve_left (Ne.symm same)
      have other : name b ≠ name a := by
        intro eq
        exact distinct.1 (eq ▸ List.mem_map_of_mem behind)
      simpa [List.find?_cons, other] using ih behind distinct.2

end DmlCompiler
