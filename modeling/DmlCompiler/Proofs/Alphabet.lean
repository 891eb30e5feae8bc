import DmlCompiler.Proofs.Composition
import DmlCompiler.Proofs.Grammar
import DmlCompiler.Proofs.Placeholders
import Mathlib.Data.List.Chain

/-! # The characters of commands

Free text never reaches a command: its characters are those of names and numbers, of placeholders,
and a few others, and no two signs adjoin in it, so that no quote, no comment and no further
statement can begin. -/
namespace DmlCompiler

namespace Sql

def punctuation : List Char := [' ', '.', ',', '(', ')', '*', '=', '<', '>', '+', '-', '/']

def writes (d : Dialect) (c : Char) : Bool :=
  Text.isWord c || punctuation.contains c || d.marker.toList.contains c

/-- A character that begins or ends a comment beside another one. -/
def IsSign (c : Char) : Prop := c ∈ ['*', '+', '-', '/']

instance (c : Char) : Decidable (IsSign c) :=
  inferInstanceAs (Decidable (c ∈ ['*', '+', '-', '/']))

def Apart (a b : Char) : Prop := IsSign a → ¬ IsSign b

instance (a b : Char) : Decidable (Apart a b) :=
  inferInstanceAs (Decidable (IsSign a → ¬ IsSign b))

variable {d : Dialect} {q q' : Lexer} {sql : Sql} {c : Char}

theorem writes_of_step (h : q.step (.char c) = some q') : writes d c = true := by
  by_contra other
  simp only [writes, punctuation, Bool.or_eq_true, List.contains_iff_mem, List.mem_cons,
    List.not_mem_nil, or_false, not_or] at other
  simp [Lexer.step, other] at h

theorem writes_of_word (word : Text.isWord c = true) : writes d c = true := by
  simp [writes, word]

theorem writes_of_parameterName {number : Nat} :
    ∀ c ∈ (d.parameterName number).toList, writes d c = true := by
  intro c hc
  rw [Dialect.parameterName_toList, List.mem_append] at hc
  rcases hc with hc | hc
  · simp [writes, hc]
  · exact writes_of_word (Dialect.digits_word c hc)

/-- A sign stands where an operand may begin, and none may begin behind it. -/
theorem edges_of_sign (sign : IsSign c) (h : q.step (.char c) = some q') :
    q.2 = .gap ∧ q'.2 ≠ .gap := by
  obtain ⟨depth, edge⟩ := q
  simp only [IsSign, List.mem_cons, List.not_mem_nil, or_false] at sign
  rcases sign with rfl | rfl | rfl | rfl <;> cases edge <;> cases h <;> exact ⟨rfl, nofun⟩

theorem not_isSign_of_word (word : Text.isWord c = true) : ¬ IsSign c := by
  intro sign
  simp only [IsSign, List.mem_cons, List.not_mem_nil, or_false] at sign
  rcases sign with rfl | rfl | rfl | rfl <;> revert word <;> decide

theorem not_isSign_of_mark (mark : isMark c = true) : ¬ IsSign c := by
  intro sign
  simp only [IsSign, List.mem_cons, List.not_mem_nil, or_false] at sign
  rcases sign with rfl | rfl | rfl | rfl <;> revert mark <;> decide

theorem not_isSign_of_parameterName {number : Nat} :
    ∀ c ∈ (d.parameterName number).toList, ¬ IsSign c := by
  obtain ⟨first, rest, eq, mark, word⟩ := d.parameterName_cons (k := number)
  rw [eq, List.forall_mem_cons]
  exact ⟨not_isSign_of_mark mark, fun c hc => not_isSign_of_word (word c hc)⟩

theorem isChain_append {front rest : List Char} (free : ∀ c ∈ front, ¬ IsSign c)
    (h : rest.IsChain Apart) : (front ++ rest).IsChain Apart := by
  induction front with
  | nil => exact h
  | cons c front ih =>
    obtain ⟨first, free⟩ := List.forall_mem_cons.1 free
    rw [List.cons_append, List.isChain_cons]
    exact ⟨fun _ _ sign => (first sign).elim, ih free⟩

/-- In text that the lexer accepts no two signs adjoin, and it begins with one only where an operand
may begin. -/
theorem Lexes.isChain (h : Lexes q sql q') :
    (chars d sql).IsChain Apart ∧ ∀ c ∈ (chars d sql).head?, IsSign c → q.2 = .gap := by
  induction sql generalizing q with
  | nil => exact ⟨.nil, by simp⟩
  | cons s sql ih =>
    obtain ⟨r, first, rest⟩ := lexes_cons.1 h
    obtain ⟨chain, begins⟩ := ih rest
    cases s with
    | char c =>
      have text : chars d (.char c :: sql) = c :: chars d sql := rfl
      rw [text, List.isChain_cons, List.head?_cons]
      refine ⟨⟨?_, chain⟩, ?_⟩
      · intro next head sign sign'
        exact (edges_of_sign sign first).2 (begins next head sign')
      · rintro _ ⟨⟩ sign
        exact (edges_of_sign sign first).1
    | place number =>
      rw [chars_cons_place]
      refine ⟨isChain_append not_isSign_of_parameterName chain, ?_⟩
      intro c head sign
      obtain ⟨first, rest, eq, mark, _⟩ := d.parameterName_cons (k := number)
      rw [eq, List.cons_append, List.head?_cons] at head
      cases head
      exact (not_isSign_of_mark mark sign).elim

theorem Lexes.writes (h : Lexes q sql q') : ∀ c ∈ chars d sql, Sql.writes d c = true := by
  induction sql generalizing q with
  | nil => exact List.forall_mem_nil _
  | cons s sql ih =>
    obtain ⟨r, first, rest⟩ := lexes_cons.1 h
    cases s with
    | char c => exact List.forall_mem_cons.2 ⟨writes_of_step first, ih rest⟩
    | place number =>
      rw [chars_cons_place]
      exact List.forall_mem_append.2 ⟨writes_of_parameterName, ih rest⟩

end Sql

open Sql

/-- What begins a quote or ends a statement. -/
def foreignText : List String := [";", "'", "\"", "`", "--", "/*", "*/"]

/-- A foreign text has a character that no command has, or two signs that adjoin. -/
theorem foreignText_cases (d : Dialect) : ∀ foreign ∈ foreignText,
    foreign.toList.any (fun c => !writes d c) = true ∨ ¬ foreign.toList.IsChain Apart := by
  cases d <;> decide

variable {known : Entity → Prop} {used : Dialect → Prop} {dialect : Dialect} {c : Command}

/-- All characters are those of commands, and nothing foreign stands in them, where no entity leaves
a list with other names to a valid one. -/
theorem no_free_text_in_commands (listed : ListedAsValid known)
    (h : Compiled known used dialect c) :
    (∀ x ∈ c.sql.toList, writes dialect x = true) ∧
      ∀ foreign ∈ foreignText, ¬ foreign.toList <:+: c.sql.toList := by
  obtain ⟨_, sql, text, sound, _⟩ := h.isNumbered listed
  obtain ⟨_, _, lexed⟩ := sound 0
  rw [text, text_toList]
  refine ⟨lexed.writes, ?_⟩
  intro foreign mem inside
  rcases foreignText_cases dialect foreign mem with outside | adjoining
  · obtain ⟨x, hx, outside⟩ := List.any_eq_true.1 outside
    have written := lexed.writes (d := dialect) x (inside.subset hx)
    rw [written] at outside
    cases outside
  · obtain ⟨front, back, eq⟩ := inside
    obtain ⟨chain, _⟩ := lexed.isChain (d := dialect)
    rw [← eq] at chain
    exact adjoining chain.left_of_append.right_of_append

/-- A run over valid entities ends with a compiled command if its expressions are composed of such
entities, and of sub-queries that are made in this way themselves. -/
theorem Compiled.of_composed {registry : Registry} {options : Options}
    {history : List Compilation} {calls : List Call} (dialects : Command → Dialect)
    (isUsed : used dialect) (past : ∀ w ∈ history, w.Concerns known)
    (entities : ∀ call ∈ calls, ∀ e ∈ call.entity?, known e ∧ e.IsValid)
    (composed : ∀ call ∈ calls, ∀ x ∈ call.expressions,
      x.Composed (fun e => known e ∧ e.IsValid) fun q =>
        (∀ p ∈ q.parts, p.IsValid (fun _ => True) registry ∧ p.Resolves known registry) ∧
          ∀ inner, .command inner ∈ q.parts → Compiled known used (dialects inner) inner)
    (built : ((Draft.new dialect registry options (keptAfter history)).build calls).1 = .ok c) :
    Compiled known used dialect c := by
  refine .build dialects isUsed past ?_ ?_ ?_ built
  · intro call hcall
    constructor
    · intro e he
      exact (entities call hcall e he).1
    · intro x hx p mem
      rcases (composed call hcall x hx).parts _ mem with ⟨_, _, _, _, rfl⟩ | ⟨q, nested, mem⟩
      · trivial
      · exact (nested.1 p mem).2
  · intro call hcall
    constructor
    · intro x hx
      exact (composed call hcall x hx).isValid (fun _ valid => valid.2) fun q nested p mem =>
        (nested.1 p mem).1
    · intro e he
      exact (entities call hcall e he).2
  · intro call hcall x hx inner mem
    rcases (composed call hcall x hx).parts _ mem with ⟨_, _, _, _, eq⟩ | ⟨q, nested, mem⟩
    · cases eq
    · exact nested.2 inner mem

/-- Orders that are like a text that would end the statement, or as large as one of the large ones.
One column is named anew. -/
def suspiciousOrders : List Call :=
  let suspicious := amount.like "'; DROP TABLE Orders; --"
  [.select [(amount.apply .upper []).named "Loud", amount], .from orders,
    .filter (suspicious.or (amount.isInSubQuery (.command largeOrders)))]

def suspiciousCommand : Command where
  name := Command.anonymous
  sql := "SELECT UPPER(Orders.Amount) AS Loud, Orders.Amount FROM Orders " ++
    "WHERE (Orders.Amount LIKE ?1 OR Orders.Amount IN " ++
    "(SELECT * FROM QueryResult WHERE (Orders.Amount > ?2)))"
  parameters := [⟨"?1", .text "'; DROP TABLE Orders; --", some .decimal, none⟩,
    ⟨"?2", .integer 7, some .decimal, none⟩]
  kind := .select
  page := none

theorem no_free_text_in_commands_suspicious :
    ListedAsValid Entity.IsValid ∧
    Compiled Entity.IsValid (fun _ => True) .mySql suspiciousCommand ∧
      ∀ foreign ∈ foreignText, ¬ foreign.toList <:+: suspiciousCommand.sql.toList := by
  have listed : ListedAsValid Entity.IsValid := listedAsValid_of_isValid fun _ valid => valid
  have validOrders : orders.IsValid ∧ orders.IsValid := by decide +kernel
  have validResult : Entity.queryResult.IsValid := by decide +kernel
  have past : ∀ w ∈ [selectionOf {} orders], w.Concerns Entity.IsValid :=
    List.forall_mem_singleton.2 (selectionOf_concerns validOrders.1)
  have carried {nests : SubQuery → Prop} :
      amount.Composed (fun e => e.IsValid ∧ e.IsValid) nests :=
    .property validOrders (show Expression.ofEntity orders "Amount" = .ok amount from rfl)
  have large : Compiled Entity.IsValid (fun _ => True) .standard largeOrders :=
    largeOrders_compiled validResult trivial
  have suspicious : Compiled Entity.IsValid (fun _ => True) .mySql suspiciousCommand := by
    have built : ((Draft.new .mySql (.new true) {} (keptAfter [selectionOf {} orders])).build
      suspiciousOrders).1 = .ok suspiciousCommand := by decide +kernel
    refine .of_composed (fun _ => .standard) trivial past ?_ ?_ built
    · simp [suspiciousOrders, Call.entity?, validOrders]
    · simp only [suspiciousOrders, List.forall_mem_cons, Call.expressions, List.not_mem_nil,
        IsEmpty.forall_iff, implies_true, and_true, true_and]
      refine ⟨⟨(carried.apply _ _).named _, carried⟩, (carried.compareValue _ _).or ?_⟩
      have made : amount.membership .isIn [.subQuery (.command largeOrders)] =
          .ok (amount.isInSubQuery (.command largeOrders)) := rfl
      refine .membership carried ?_ made
      simp [SubQuery.parts, Part.IsValid, Part.Resolves, large]
  exact ⟨listed, suspicious, (no_free_text_in_commands listed suspicious).2⟩

/-- What the column of another entity has in its name ends the selection of the orders behind that
of the other one, and leaves its end a comment. -/
theorem kept_text_foreign :
    ∃ c, Compiled (fun _ => True) (fun _ => True) .standard c ∧
      c.sql = "SELECT Orders.a;--' FROM Orders" ∧
      ∀ foreign ∈ [";", "--", "'"], foreign ∈ foreignText ∧ foreign.toList <:+: c.sql.toList := by
  let c : Command := ⟨Command.anonymous, "SELECT Orders.a;--' FROM Orders", [], .select, none⟩
  have written : (selectionOf {} orders).result (keptAfter [selectionOf {} (ordersBy "a;--'")]) =
      .ok c := by decide +kernel
  have valid : orders.IsValid := by decide +kernel
  exact ⟨c, .of_selection trivial valid trivial trivial written, rfl, by decide +kernel⟩

end DmlCompiler
