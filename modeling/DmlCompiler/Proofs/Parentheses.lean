import DmlCompiler.Proofs.Balance
import DmlCompiler.Proofs.Placeholders

/-! # Parentheses

A compiled command closes no parenthesis that is not open, and leaves none open: every part that
is written is balanced, wherever it stands. -/
namespace DmlCompiler

open Sql

/-- Where a text leads from one depth to another, the depths differ by its parentheses. -/
theorem Sql.depth_add_count {letters : List Char} {depth depth' : Nat}
    (h : (letters.map Symbol.char).foldlM nest depth = some depth') :
    depth' + letters.count ')' = depth + letters.count '(' := by
  induction letters generalizing depth with
  | nil =>
    cases h
    rfl
  | cons c letters ih =>
    rw [List.map_cons, List.foldlM_cons] at h
    obtain ⟨deeper, first, rest⟩ := Option.bind_eq_some_iff.1 h
    have later := ih rest
    by_cases opens : c = '('
    · subst opens
      cases first
      simp only [List.count_cons_self, List.count_cons_of_ne (by decide : '(' ≠ ')')]
      omega
    · by_cases closes : c = ')'
      · subst closes
        cases depth with
        | zero => cases first
        | succ outer =>
          cases first
          simp only [List.count_cons_self, List.count_cons_of_ne (by decide : ')' ≠ '(')]
          omega
      · simp only [nest, opens, closes, if_false, Option.some.injEq] at first
        rw [List.count_cons_of_ne opens, List.count_cons_of_ne closes, later, first]

/-- The front of a balanced text closes no more than it opens, the whole text just as much. -/
theorem Sql.Balanced.count_le {text : String} (h : Balanced (ofString text)) :
    (∀ front, front <+: text.toList → front.count ')' ≤ front.count '(') ∧
      text.toList.count ')' = text.toList.count '(' := by
  refine ⟨?_, ?_⟩
  · rintro front ⟨rest, split⟩
    have closed := h 0
    rw [ofString, ← split, List.map_append, List.foldlM_append] at closed
    obtain ⟨depth, begun, -⟩ := Option.bind_eq_some_iff.1 closed
    have differs := depth_add_count begun
    omega
  · have differs := depth_add_count (h 0)
    omega

variable {known : Entity → Prop} {used : Dialect → Prop} {dialect : Dialect} {c : Command}

theorem Compiled.sql_balanced (listed : ListedAsValid known) (h : Compiled known used dialect c) :
    Balanced (ofString c.sql) := by
  obtain ⟨_, sql, text, good, _⟩ := h.isNumbered listed
  rw [text]
  exact Sound.balanced good |>.text dialect

/-- No front closes more than it opens, and the whole text closes what it opens, where no entity
leaves a list with other names to a valid one. -/
theorem parentheses_balance (listed : ListedAsValid known) (h : Compiled known used dialect c) :
    (∀ front, front <+: c.sql.toList → front.count ')' ≤ front.count '(') ∧
      c.sql.toList.count ')' = c.sql.toList.count '(' :=
  (h.sql_balanced listed).count_le

def trimmedAmount : Expression :=
  let amount : ColumnRef := ⟨"Orders", "Amount", .decimal, none, .all⟩
  ((Expression.bare "Order" "Amount" (some amount)).apply .trim []).substring 2 none

def trimmedOrders : Command where
  name := Command.anonymous
  sql := "SELECT * FROM QueryResult WHERE (Orders.Amount = " ++
    "SUBSTRING(LTRIM(RTRIM(Orders.Amount)), @p1, LEN(LTRIM(RTRIM(Orders.Amount)))))"
  parameters := [⟨"@p1", .bigInt 2, none, none⟩]
  kind := .select
  page := none

def ordersAmongTrimmed : Command where
  name := Command.anonymous
  sql := "SELECT * FROM QueryResult WHERE (Orders.Amount NOT IN (@p1, " ++
    "(SELECT * FROM QueryResult WHERE (Orders.Amount = " ++
    "SUBSTRING(LTRIM(RTRIM(Orders.Amount)), @p2, LEN(LTRIM(RTRIM(Orders.Amount))))))))"
  parameters := [⟨"@p1", .integer 5, some .decimal, none⟩, ⟨"@p2", .bigInt 2, none, none⟩]
  kind := .select
  page := none

theorem parentheses_balance_nested :
    ListedAsValid Entity.IsValid ∧
    Compiled Entity.IsValid (fun _ => True) .standard ordersAmongTrimmed ∧
    ordersAmongTrimmed.sql.toList.count ')' = 10 := by
  have listed : ListedAsValid Entity.IsValid := listedAsValid_of_isValid fun _ valid => valid
  have past : ∀ w ∈ [selectionOf {} orders], w.Concerns Entity.IsValid :=
    List.forall_mem_singleton.2 (selectionOf_concerns (by decide +kernel))
  have column : ColumnRef.IsValid ⟨"Orders", "Amount", .decimal, none, .all⟩ :=
    ⟨by decide +kernel, by decide +kernel⟩
  have result : Entity.queryResult.IsValid := by decide +kernel
  have builtTrimmed : ((Draft.new .sqlServer (.new true) {} (keptAfter [])).build
      (ordersWhere .equal (.property trimmedAmount))).1 = .ok trimmedOrders := by decide +kernel
  have trimmed : Compiled Entity.IsValid (fun _ => True) .sqlServer trimmedOrders := by
    refine .of_ordersWhere result (fun _ => .standard) trivial (List.forall_mem_nil _) ?_ ?_
      builtTrimmed
    · simpa [trimmedAmount, Argument.parts, Expression.parts, Expression.apply,
        Expression.substring, Expression.bare, argumentParts, expressionParts, Part.IsValid,
        Part.Resolves] using column
    · simp [trimmedAmount, Argument.parts, Expression.parts, Expression.apply,
        Expression.substring, Expression.bare, argumentParts, expressionParts]
  have builtAmong : ((Draft.new .standard (.new true) {} (keptAfter [selectionOf {} orders])).build
      (ordersWhere .notIn (.list [.value (.integer 5), .subQuery (.command trimmedOrders)]))).1 =
        .ok ordersAmongTrimmed := by decide +kernel
  have among : Compiled Entity.IsValid (fun _ => True) .standard ordersAmongTrimmed := by
    refine .of_ordersWhere result (fun _ => .sqlServer) trivial past ?_ ?_ builtAmong
    · simp [Argument.parts, operandParts, Operand.parts, SubQuery.parts, Part.IsValid,
        Part.Resolves]
    · simpa [Argument.parts, operandParts, Operand.parts, SubQuery.parts] using trimmed
  refine ⟨listed, among, (parentheses_balance listed among).2.trans ?_⟩
  decide +kernel

/-- A parenthesis that the column of another entity has in its name closes nothing in the selection
of the orders behind that of the other one. -/
theorem kept_parenthesis_unopened :
    ∃ c, Compiled (fun _ => True) (fun _ => True) .standard c ∧
      c.sql = "SELECT Orders.b) FROM Orders" ∧
      c.sql.toList.count ')' = 1 ∧ c.sql.toList.count '(' = 0 := by
  let c : Command := ⟨Command.anonymous, "SELECT Orders.b) FROM Orders", [], .select, none⟩
  have written : (selectionOf {} orders).result (keptAfter [selectionOf {} (ordersBy "b)")]) =
      .ok c := by decide +kernel
  have valid : orders.IsValid := by decide +kernel
  exact ⟨c, .of_selection trivial valid trivial trivial written, rfl, by decide +kernel,
    by decide +kernel⟩

end DmlCompiler
