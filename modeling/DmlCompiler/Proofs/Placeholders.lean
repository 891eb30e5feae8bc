import DmlCompiler.Expression.Fluent
import DmlCompiler.Proofs.Compiled
import Mathlib.Data.List.Infix

/-! # Placeholders and parameters

The placeholders in the text of a compiled command are the names of its parameters. Where SQL
Server is not written for they stand in the order of the parameters, each of them once. -/
namespace DmlCompiler

open Sql

/-- The placeholder that the text begins with: the marker of a dialect and all digits behind it. -/
def placeholderAt? (text : List Char) : Option String :=
  Dialect.all.findSome? fun dialect =>
    let marker := dialect.marker.toList
    if marker.isPrefixOf text then
      some (String.ofList (marker ++ (text.drop marker.length).takeWhile Text.isDigit))
    else none

/-- The placeholders wherever they begin, from left to right. -/
def placeholders (text : String) : List String := text.toList.tails.filterMap placeholderAt?

theorem placeholderAt?_of_unmarked {c : Char} (h : isMark c = false) (rest : List Char) :
    placeholderAt? (c :: rest) = none := by
  unfold placeholderAt?
  rw [List.findSome?_eq_none_iff]
  intro dialect _
  obtain ⟨mark, marker, eq, marked, _⟩ := dialect.marker_cons
  have other : mark ≠ c := by
    rintro rfl
    rw [h] at marked
    cases marked
  simp [eq, other]

/-- A name that no letter or digit follows is a placeholder. -/
theorem placeholderAt?_parameterName (d : Dialect) (k : Nat) {rest : List Char}
    (bounded : ∀ c ∈ rest.head?, Text.isWord c = false) :
    placeholderAt? ((d.parameterName k).toList ++ rest) = some (d.parameterName k) := by
  have digits : (Dialect.digits k ++ rest).takeWhile Text.isDigit = Dialect.digits k := by
    have all : ∀ c ∈ Dialect.digits k, Text.isDigit c = true := fun c hc =>
      Nat.isDigit_of_mem_toDigits (by decide) (by decide) hc
    rw [List.takeWhile_append_of_pos all]
    cases rest with
    | nil => simp
    | cons c rest =>
      have word := bounded c rfl
      have last : Text.isDigit c = false := by
        cases digit : Text.isDigit c with
        | false => rfl
        | true => simp [Text.isWord, digit] at word
      simp [last]
  have name : String.ofList (d.marker.toList ++ Dialect.digits k) = d.parameterName k := by
    rw [← Dialect.parameterName_toList, String.ofList_toList]
  rw [Dialect.parameterName_toList, List.append_assoc, ← name]
  unfold placeholderAt?
  cases d <;>
    simp [Dialect.all, Dialect.marker, digits, -String.ofList_append, -String.ofList_cons]

theorem tails_unmarked {front rest : List Char} (h : ∀ c ∈ front, isMark c = false) :
    (front ++ rest).tails.filterMap placeholderAt? = rest.tails.filterMap placeholderAt? := by
  induction front with
  | nil => rfl
  | cons c front ih =>
    have first := placeholderAt?_of_unmarked (h c List.mem_cons_self) (front ++ rest)
    rw [List.cons_append, List.tails_cons, List.filterMap_cons_none first]
    exact ih fun c hc => h c (List.mem_cons_of_mem _ hc)

/-- In text that the lexer accepts the placeholders are the names of the places. -/
theorem placeholders_text {d : Dialect} {sql : Sql} : ∀ {q q' : Lexer}, Lexes q sql q' →
    placeholders (sql.text d) = sql.places.map d.parameterName := by
  unfold placeholders
  rw [text_toList]
  induction sql with
  | nil => exact fun _ => rfl
  | cons s sql ih =>
    intro q q' lexed
    obtain ⟨r, first, rest⟩ := lexes_cons.1 lexed
    cases s with
    | char c =>
      have unmarked : ∀ c' ∈ [c], isMark c' = false := by simpa using isMark_of_step first
      exact (tails_unmarked unmarked).trans (ih rest)
    | place k =>
      have complete : r = (q.1, .done) := by
        simp only [Lexer.step] at first
        split at first
        · exact (Option.some.inj first).symm
        · cases first
      subst complete
      obtain ⟨c, letters, name, _, word⟩ := d.parameterName_cons (k := k)
      have found := placeholderAt?_parameterName d k (not_word_of_done (d := d) rest)
      have unmarked : ∀ c ∈ letters, isMark c = false := fun c hc => isMark_of_word (word c hc)
      have text : chars d (.place k :: sql) = (d.parameterName k).toList ++ chars d sql := rfl
      rw [text]
      rw [name, List.cons_append] at found ⊢
      rw [List.tails_cons, List.filterMap_cons_some found, tails_unmarked unmarked, ih rest]
      rfl

/-- The parameters are numbered, and the placeholders are their names, where no entity leaves a list
with other names to a valid one. -/
theorem placeholders_are_parameters {known : Entity → Prop} {used : Dialect → Prop}
    {dialect : Dialect} {c : Command} (listed : ListedAsValid known)
    (h : Compiled known used dialect c) :
    c.parameters.map (·.name) =
      (List.range' 1 c.parameters.length).map dialect.parameterName ∧
    (∀ name, name ∈ placeholders c.sql ↔ name ∈ c.parameters.map (·.name)) ∧
    (¬ used .sqlServer → placeholders c.sql = c.parameters.map (·.name)) := by
  obtain ⟨names, sql, text, good, fills⟩ := h.isNumbered listed
  obtain ⟨_, _, lexed⟩ := good 0
  rw [text, placeholders_text lexed]
  refine ⟨names, ?_, ?_⟩
  · intro name
    have known : ∀ k, k ∈ sql.places ↔ k ∈ List.range' 1 c.parameters.length := by
      intro k
      rw [fills.mem_iff, List.mem_range'_1]
      omega
    simp only [names, List.mem_map, known]
  · intro unused
    rw [names, fills.sorted unused, Nat.zero_add, Nat.sub_zero]

def ordersWhere (operator : Operator) (argument : Argument) : List Call :=
  let amount : ColumnRef := ⟨"Orders", "Amount", .decimal, none, .all⟩
  let compared := (Expression.bare "Order" "Amount" (some amount)).compare operator argument
  [.select [], .from .queryResult, .filter compared]

def largeOrders : Command where
  name := Command.anonymous
  sql := "SELECT * FROM QueryResult WHERE (Orders.Amount > @p1)"
  parameters := [⟨"@p1", .integer 7, some .decimal, none⟩]
  kind := .select
  page := none

def someOrders : Command where
  name := Command.anonymous
  sql := "SELECT * FROM QueryResult WHERE (Orders.Amount IN ($1, " ++
    "(SELECT * FROM QueryResult WHERE (Orders.Amount > $2)), $3))"
  parameters := [⟨"$1", .integer 5, some .decimal, none⟩, ⟨"$2", .integer 7, some .decimal, none⟩,
    ⟨"$3", .null, some .decimal, none⟩]
  kind := .select
  page := none

theorem ordersWhere_entity {operator : Operator} {argument : Argument} :
    ∀ call ∈ ordersWhere operator argument, ∀ e ∈ call.entity?, e = .queryResult := by
  simp [ordersWhere, Call.entity?, eq_comm]

theorem ordersWhere_parts {operator : Operator} {argument : Argument} :
    ∀ call ∈ ordersWhere operator argument, ∀ x ∈ call.expressions, ∀ p ∈ x.parts,
      p = .column ⟨"Orders", "Amount", .decimal, none, .all⟩ ∨ p ∈ argument.parts := by
  simp [ordersWhere, Call.expressions, Expression.compare, Expression.bare, Expression.parts,
    argumentParts, expressionParts]

theorem ordersWhere_names {registry : Registry} {operator : Operator} {argument : Argument}
    (h : ∀ p ∈ argument.parts, p.IsValid (fun _ => True) registry) :
    ∀ call ∈ ordersWhere operator argument, call.IsValid (fun _ => True) registry := by
  have column : ColumnRef.IsValid ⟨"Orders", "Amount", .decimal, none, .all⟩ :=
    ⟨by decide +kernel, by decide +kernel⟩
  have entity : Entity.queryResult.IsValid := ⟨by decide +kernel, by simp [Entity.queryResult]⟩
  intro call hcall
  constructor
  · intro x hx p hp
    rcases ordersWhere_parts call hcall x hx p hp with rfl | mem
    · exact column
    · exact h p mem
  · intro e he
    rwa [ordersWhere_entity call hcall e he]

theorem ordersWhere_concerns {known : Entity → Prop} {registry : Registry} {operator : Operator}
    {argument : Argument} (about : known .queryResult)
    (h : ∀ p ∈ argument.parts, p.Resolves known registry) :
    ∀ call ∈ ordersWhere operator argument, call.Concerns known registry := by
  intro call hcall
  constructor
  · intro e he
    rwa [ordersWhere_entity call hcall e he]
  · intro x hx p hp
    rcases ordersWhere_parts call hcall x hx p hp with rfl | mem
    · trivial
    · exact h p mem

theorem ordersWhere_commands {operator : Operator} {argument : Argument} {holds : Command → Prop}
    (h : ∀ inner, .command inner ∈ argument.parts → holds inner) :
    ∀ call ∈ ordersWhere operator argument, ∀ x ∈ call.expressions, ∀ inner,
      .command inner ∈ x.parts → holds inner := by
  intro call hcall x hx inner hi
  rcases ordersWhere_parts call hcall x hx _ hi with column | mem
  · cases column
  · exact h inner mem

section Selections

variable {known : Entity → Prop} {used : Dialect → Prop} (about : known .queryResult)
include about

theorem Compiled.of_ordersWhere {dialect : Dialect} {history : List Compilation}
    {operator : Operator} {argument : Argument} {c : Command} (dialects : Command → Dialect)
    (isUsed : used dialect) (past : ∀ w ∈ history, w.Concerns known)
    (names : ∀ p ∈ argument.parts,
      p.IsValid (fun _ => True) (.new true) ∧ p.Resolves known (.new true))
    (commands : ∀ inner, .command inner ∈ argument.parts →
      Compiled known used (dialects inner) inner)
    (built : ((Draft.new dialect (.new true) {} (keptAfter history)).build
      (ordersWhere operator argument)).1 = .ok c) :
    Compiled known used dialect c :=
  .build dialects isUsed past (ordersWhere_concerns about fun p hp => (names p hp).2)
    (ordersWhere_names fun p hp => (names p hp).1) (ordersWhere_commands commands) built

theorem largeOrders_compiled (isUsed : used .standard) :
    Compiled known used .standard largeOrders := by
  have built : ((Draft.new .standard (.new true) {} (keptAfter [])).build
      (ordersWhere .greaterThan (.value (.integer 7)))).1 = .ok largeOrders := by decide +kernel
  exact .of_ordersWhere about (fun _ => .standard) isUsed (List.forall_mem_nil _)
    (by simp [Argument.parts]) (by simp [Argument.parts]) built

end Selections

theorem placeholders_are_parameters_nested :
    ListedAsValid Entity.IsValid ∧
    Compiled Entity.IsValid (· ≠ .sqlServer) .postgres someOrders ∧
    placeholders someOrders.sql = ["$1", "$2", "$3"] := by
  have listed : ListedAsValid Entity.IsValid := listedAsValid_of_isValid fun _ valid => valid
  have past : ∀ w ∈ [selectionOf {} orders], w.Concerns Entity.IsValid :=
    List.forall_mem_singleton.2 (selectionOf_concerns (by decide +kernel))
  have result : Entity.queryResult.IsValid := by decide +kernel
  have large : Compiled Entity.IsValid (· ≠ .sqlServer) .standard largeOrders :=
    largeOrders_compiled result (by simp)
  have built : ((Draft.new .postgres (.new true) {} (keptAfter [selectionOf {} orders])).build
      (ordersWhere .isIn (.list [.value (.integer 5), .subQuery (.command largeOrders),
        .value .null]))).1 = .ok someOrders := by decide +kernel
  have some : Compiled Entity.IsValid (· ≠ .sqlServer) .postgres someOrders := by
    refine .of_ordersWhere result (fun _ => .standard) (by simp) past ?_ ?_ built
    · simp [Argument.parts, operandParts, Operand.parts, SubQuery.parts, Part.IsValid,
        Part.Resolves]
    · simpa [Argument.parts, operandParts, Operand.parts, SubQuery.parts] using large
  exact ⟨listed, some, (placeholders_are_parameters listed some).2.2 (by simp)⟩

/-- A placeholder that the column of another entity has in its name stands in the selection of the
orders behind that of the other one, without a parameter. -/
theorem kept_placeholder_unbound :
    ∃ c, Compiled (fun _ => True) (· ≠ .sqlServer) .standard c ∧
      c.sql = "SELECT Orders.b @p7 FROM Orders" ∧ placeholders c.sql = ["@p7"] ∧
      c.parameters = [] := by
  let c : Command := ⟨Command.anonymous, "SELECT Orders.b @p7 FROM Orders", [], .select, none⟩
  have written : (selectionOf {} orders).result (keptAfter [selectionOf {} (ordersBy "b @p7")]) =
      .ok c := by decide +kernel
  have valid : orders.IsValid := by decide +kernel
  exact ⟨c, .of_selection (by simp) valid trivial trivial written, rfl, by decide +kernel, rfl⟩

end DmlCompiler
