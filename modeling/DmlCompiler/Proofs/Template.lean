import DmlCompiler.Proofs.Build.Couples
import DmlCompiler.Proofs.Places

/-! # Statements for every dialect

A template is a statement that is not yet written for a dialect: the names of the parameters, the
texts of functions, the length of a substring and the page clauses are still open. -/
namespace DmlCompiler

open Sql

def Dialect.pageTail (dialect : Dialect) (page : Option Page) (isOrdered : Bool) : String :=
  match page with
  | some page =>
    let order :=
      if !page.isEmpty && !isOrdered && dialect.needsOrder then " ORDER BY (SELECT NULL)" else ""
    order ++ dialect.pageClause page
  | none => ""

theorem Draft.pageText_eq (d : Draft) :
    d.pageText = d.dialect.pageTail d.page (d.clause = .orderBy) := by
  unfold pageText Dialect.pageTail
  cases d.page with
  | none => rfl
  | some page => by_cases ordered : d.clause = .orderBy <;> simp [ordered]

inductive Template where
  | text (sql : Sql)
  | append (first second : Template)
  /-- A function around its argument and its parameters. -/
  | call (f : Function) (inner params : Template)
  /-- A statement of its own, with its page clause at the end. -/
  | statement (body : Template) (page : Option Page) (isOrdered : Bool)

namespace Template

def render (dialect : Dialect) : Template → Sql
  | text sql => sql
  | append first second => first.render dialect ++ second.render dialect
  | call f inner params => f.around dialect (inner.render dialect) (params.render dialect)
  | statement body page isOrdered =>
    body.render dialect ++ ofString (dialect.pageTail page isOrdered)

def relabel (f : Nat → Nat) : Template → Template
  | text sql => text (sql.map (Symbol.relabel f))
  | append first second => append (first.relabel f) (second.relabel f)
  | call g inner params => call g (inner.relabel f) (params.relabel f)
  | statement body page isOrdered => statement (body.relabel f) page isOrdered

end Template

theorem Function.around_relabel (f : Function) (dialect : Dialect) (inner params : Sql)
    (shift : Nat → Nat) :
    f.around dialect (inner.map (Symbol.relabel shift)) (params.map (Symbol.relabel shift)) =
      (f.around dialect inner params).map (Symbol.relabel shift) := by
  have length : f.wholeLength dialect (inner.map (Symbol.relabel shift)) =
      (f.wholeLength dialect inner).map (Symbol.relabel shift) := by
    unfold wholeLength Dialect.wholeLength?
    cases dialect.needsLength with
    | false => rfl
    | true =>
      simp only [if_true]
      split <;> simp
  simp [around, length, Symbol.relabel]

/-- Relabelling the places comes to the same before and after rendering. -/
theorem Template.render_relabel (dialect : Dialect) (f : Nat → Nat) (t : Template) :
    (t.relabel f).render dialect = (t.render dialect).map (Symbol.relabel f) := by
  induction t with
  | text sql => rfl
  | append first second ihFirst ihSecond =>
    simp only [relabel, render, List.map_append, ihFirst, ihSecond]
  | call g inner params ihInner ihParams =>
    simp only [relabel, render, ihInner, ihParams, g.around_relabel]
  | statement body page isOrdered ih =>
    simp only [relabel, render, List.map_append, relabel_ofString, ih]

theorem Function.around_ne_nil (f : Function) (dialect : Dialect) (inner params : Sql) :
    f.around dialect inner params ≠ [] := by
  have opens (kind : FunctionKind) : dialect.opening kind ≠ "" := by
    cases dialect <;> cases kind <;> decide
  intro empty
  simp only [around, List.append_assoc, List.append_eq_nil_iff] at empty
  apply opens f.kind
  simpa [ofString] using empty.1

namespace Dialect

theorem pageClause_eq_empty (dialect : Dialect) (page : Page) :
    dialect.pageClause page = "" ↔ page.isEmpty = true := by
  obtain ⟨limit, offset⟩ := page
  cases dialect <;> cases limit <;> cases offset <;>
    simp [pageClause, offsetFetch, limitOffset, fetchNext, rowLimit, Page.isEmpty]

theorem pageTail_eq_empty (dialect dialect' : Dialect) (page : Option Page) (isOrdered : Bool) :
    dialect.pageTail page isOrdered = "" ↔ dialect'.pageTail page isOrdered = "" := by
  cases page with
  | none => exact Iff.rfl
  | some page =>
    have known (d : Dialect) : d.pageTail (some page) isOrdered = "" ↔ page.isEmpty = true := by
      by_cases empty : page.isEmpty
      · simp [pageTail, empty, (d.pageClause_eq_empty page).2]
      · simp [pageTail, empty, d.pageClause_eq_empty page]
    rw [known, known]

end Dialect
end DmlCompiler
