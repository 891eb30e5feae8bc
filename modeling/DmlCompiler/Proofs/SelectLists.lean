import DmlCompiler.Proofs.Grammar
import DmlCompiler.Proofs.Renaming
import DmlCompiler.Proofs.SelectLists.Histories

/-! # Keeping select lists

Select lists are kept from one compilation to the next. Nobody can tell whether they are, as long
as the entities that are compiled for have the same list wherever they have the same key: the name
and the table, which is less than the list is made of. -/
namespace DmlCompiler

open Build

variable {known : Entity → Prop} {registry : Registry}

/-- Entities with the same name and table have the same select list, if they can be selected from. -/
def ListedByKey (known : Entity → Prop) : Prop :=
  ∀ a b, known a → known b → a.permissions.allows .select → b.permissions.allows .select →
    a.name = b.name → a.table = b.table → a.selectList = b.selectList

namespace SelectCache

/-- What is kept for a known entity that can be selected from is its own list. -/
def Faithful (known : Entity → Prop) (cache : SelectCache) : Prop :=
  ∀ e, known e → e.permissions.allows .select → ∀ list ∈ cache.find? e, list = e.selectList

theorem Faithful.fetch_fst {cache : SelectCache} {e : Entity} (h : cache.Faithful known)
    (asked : e.Lists known) : (cache.fetch e).1 = e.selectList := by
  rw [SelectCache.fetch_fst]
  cases found : cache.find? e with
  | none => rfl
  | some list => exact h e asked.1 asked.2 list found

theorem Faithful.fetch {cache : SelectCache} {a : Entity} (listed : ListedByKey known)
    (h : cache.Faithful known) (asked : a.Lists known) : (cache.fetch a).2.Faithful known := by
  intro b isKnown selectable list found
  by_cases key : (b.name, b.table) = (a.name, a.table)
  · rw [find?_congr key, find?_fetch, h.fetch_fst asked] at found
    cases found
    obtain ⟨name, table⟩ := Prod.mk.inj key.symm
    exact listed a b asked.1 isKnown asked.2 selectable name table
  · rw [find?_fetch_other key] at found
    exact h b isKnown selectable list found

end SelectCache

def Exchange.dropping (listed : ListedByKey known) (o : Options) :
    Exchange (Entity.Lists known) o { o with cachesSelectLists := false } where
  fits k k' := k' = [] ∧ k.Faithful known
  limit := rfl
  list := by
    rintro k k' e asked ⟨-, faithful⟩
    show e.selectList = o.listOf k e
    unfold Options.listOf
    split
    · exact (faithful.fetch_fst asked).symm
    · rfl
  after := by
    rintro k k' e asked ⟨none, faithful⟩
    refine ⟨none, ?_⟩
    unfold Options.listsAfter
    split
    · exact faithful.fetch listed asked
    · exact faithful

namespace Compilation

def keeping (c : Compilation) (keeps : Bool) : Compilation :=
  { c with options := { c.options with cachesSelectLists := keeps } }

/-- It does what it does without any lists. -/
theorem result_uncached (listed : ListedByKey known) {c : Compilation} (concerns : c.Concerns known)
    {cache : SelectCache} (faithful : cache.Faithful known) :
    c.result cache = (c.keeping false).result [] :=
  (c.exchanged (.dropping listed c.options) concerns ⟨rfl, faithful⟩).1.symm

end Compilation

theorem SelectCache.IsAsked.faithful (listed : ListedByKey known) {cache : SelectCache}
    (h : cache.IsAsked known) : cache.Faithful known := by
  induction h with
  | none => exact fun _ _ _ _ found => by cases found
  | fetch _ asked ih => exact ih.fetch listed asked

/-- Behind compilations about known entities the kept lists are faithful to these. -/
theorem keptAfter_faithful (listed : ListedByKey known) {history : List Compilation}
    (concern : ∀ c ∈ history, c.Concerns known) : (keptAfter history).Faithful known :=
  (keptAfter_isAsked concern).faithful listed

def selectionOf (options : Options) (e : Entity) : Compilation :=
  ⟨.standard, .new true, options, .build [.select [], .from e]⟩

theorem selectionOf_concerns {options : Options} {e : Entity} (isKnown : known e) :
    (selectionOf options e).Concerns known := by
  show ∀ call ∈ [Call.select [], .from e], call.Concerns known (.new true)
  intro call hcall
  rcases List.mem_pair.1 hcall with rfl | rfl
  · exact ⟨by simp [Call.entity?], by simp [Call.expressions]⟩
  · refine ⟨?_, by simp [Call.expressions]⟩
    rintro _ ⟨⟩
    exact isKnown

/-- It writes the list that is kept, or else that of the entity, which is kept then. -/
theorem selectionOf_run (options : Options) {e : Entity} (selectable : e.permissions.allows .select)
    (cache : SelectCache) :
    (selectionOf options e).result cache = .ok ⟨Command.anonymous,
      Sql.text .standard (Sql.ofString "SELECT " ++ Sql.ofString (options.listOf cache e) ++
        Sql.ofString s!" FROM {e.table}" ++ [] ++ []), [], .select, none⟩ ∧
    (selectionOf options e).kept cache = options.listsAfter cache e := by
  let fresh := Draft.new .standard (.new true) options cache
  let selected : Draft :=
    { fresh with kind := .select, sql := Sql.ofString "SELECT ", listPending := true, clause := .select }
  let listed : Draft :=
    { selected with
      cache := options.listsAfter cache e
      sql := Sql.ofString "SELECT " ++ Sql.ofString (options.listOf cache e)
      listPending := false }
  let final : Draft :=
    { listed with
      sql := Sql.ofString "SELECT " ++ Sql.ofString (options.listOf cache e) ++
        Sql.ofString s!" FROM {e.table}"
      target := some e
      clause := .from }
  have first : Gives (guarded ((Call.select []).make Query.compile)) fresh () selected := rfl
  have pending : Gives (writePendingList e) selected () listed := by
    refine gives_bind.2 ⟨selected, selected, rfl, ?_⟩
    exact gives_bind.2 ⟨_, _, defaultList_run e selected, rfl⟩
  have second : Gives (guarded ((Call.from e).make Query.compile)) selected () final := by
    refine gives_guarded.2 ⟨rfl, gives_bind.2 ⟨(), selected, rfl, ?_⟩⟩
    refine gives_bind.2 ⟨(), selected, ?_, gives_bind.2 ⟨(), listed, pending, rfl⟩⟩
    rw [checkPermission, if_pos selectable]
    rfl
  have made : Gives (Build.makeAll [.select [], .from e]) fresh () final :=
    gives_bind.2 ⟨(), selected, first, gives_bind.2 ⟨(), final, second, rfl⟩⟩
  have run : Gives (selectionOf options e).work.run fresh _ final :=
    gives_bind.2 ⟨(), final, made, rfl⟩
  exact ⟨congrArg Prod.fst run, congrArg (·.2.cache) run⟩

/-- Nobody can tell whether select lists are kept, whatever was compiled before, exactly if the
entities that are compiled for have the same list wherever they have the same name and table. -/
theorem keeping_invisible_iff (known : Entity → Prop) :
    (∀ (history : List Compilation) (c : Compilation), (∀ c' ∈ history, c'.Concerns known) →
      c.Concerns known →
      (c.keeping true).result (keptAfter history) = (c.keeping false).result (keptAfter history)) ↔
    ListedByKey known := by
  constructor
  · intro invisible a b knownA knownB selectableA selectableB name table
    have same := invisible [selectionOf {} a] (selectionOf {} b)
      (by simpa using selectionOf_concerns knownA) (selectionOf_concerns knownB)
    have kept : keptAfter [selectionOf {} a] = (SelectCache.fetch [] a).2 :=
      (selectionOf_run {} selectableA []).2
    have stale : ((SelectCache.fetch [] a).2.fetch b).1 = a.selectList :=
      SelectCache.fetch_fetch_same (Prod.ext name table)
    have left := (selectionOf_run { cachesSelectLists := true } selectableB
      (keptAfter [selectionOf {} a])).1
    have right := (selectionOf_run { cachesSelectLists := false } selectableB
      (keptAfter [selectionOf {} a])).1
    have text := Except.ok.inj (left.symm.trans (same.trans right))
    simp only [Command.mk.injEq, true_and, and_true] at text
    have letters := congrArg String.toList text
    simp only [Sql.text_toList, Sql.chars_append, Sql.chars_ofString,
      List.append_nil, List.append_assoc, List.append_cancel_left_eq, List.append_cancel_right_eq,
      String.toList_inj, Options.listOf, kept, if_true, if_false, Bool.false_eq_true, stale] at letters
    exact letters
  · intro listed history c concern concerns
    have faithful := keptAfter_faithful listed concern
    have kept : (c.keeping true).Concerns known := concerns
    have dropped : (c.keeping false).Concerns known := concerns
    rw [Compilation.result_uncached listed kept faithful,
      Compilation.result_uncached listed dropped faithful]
    rfl

def ordersWithoutAmounts : Entity :=
  { orders with
    columns := [⟨"OrderID", "OrderID", .bigInt, none, .all, true⟩,
      ⟨"Amount", "Amount", .decimal, none, { select := false }, false⟩] }

/-- Behind a selection of the orders with their amounts, these are also selected for users who may
not see them. -/
theorem hidden_amounts_selected :
    let c := selectionOf {} ordersWithoutAmounts
    let kept := keptAfter [selectionOf {} orders]
    ((c.keeping true).result kept).map (·.sql) =
      .ok "SELECT Orders.OrderID, Orders.Amount FROM Orders" ∧
    ((c.keeping false).result kept).map (·.sql) = .ok "SELECT Orders.OrderID FROM Orders" ∧
    (c.result []).map (·.sql) = .ok "SELECT Orders.OrderID FROM Orders" := by
  decide +kernel

end DmlCompiler
