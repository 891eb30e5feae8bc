import DmlCompiler.Call
import DmlCompiler.Proofs.Build.Runs
import Mathlib.Data.List.Forall2

/-! # Runs side by side

The same operations run on two drafts that differ in dialect, options, kept select lists,
parameters and text. A coupling says how these are related; two operations are coupled if they keep drafts so related,
with related results, or fail with the same error. There is a rule for each way of composing
operations. -/
namespace DmlCompiler

def Draft.over (d : Draft) (dialect : Dialect) (options : Options) (cache : SelectCache)
    (parameters : List Parameter) (sql : Sql) : Draft :=
  { d with
    dialect := dialect, options := options, cache := cache, parameters := parameters, sql := sql }

structure Draft.SameHeld (d d' : Draft) : Prop where
  dialect : d'.dialect = d.dialect
  registry : d'.registry = d.registry
  options : d'.options = d.options
  cache : d'.cache = d.cache
  parameters : d'.parameters = d.parameters

def Function.around (f : Function) (dialect : Dialect) (inner params : Sql) : Sql :=
  let opening := dialect.opening f.kind
  Sql.ofString opening ++ inner ++ params ++ f.wholeLength dialect inner ++
    List.replicate (openParentheses opening) (.char ')')

structure Coupling where
  fragment : Sql → Sql → Prop
  /-- The numbers of a parameter on both sides. -/
  number : Nat → Nat → Prop
  /-- What is known of surroundings and parameters. -/
  held : Draft → Draft → Prop
  /-- Errors with which the first side may fail alone. -/
  excuses : QueryError → Prop
  text : ∀ s, fragment (Sql.ofString s) (Sql.ofString s)
  place : ∀ {m n}, number m n → fragment [.place m] [.place n]
  append : ∀ {a b a' b'}, fragment a b → fragment a' b' → fragment (a ++ a') (b ++ b')
  isEmpty : ∀ {a b}, fragment a b → a.isEmpty = b.isEmpty
  around : ∀ {d e a b ps qs} (f : Function), held d e → fragment a b → fragment ps qs →
    fragment (f.around d.dialect a ps) (f.around e.dialect b qs)
  congr : ∀ {d e d' e'}, held d e → d.SameHeld d' → e.SameHeld e' → held d' e'

namespace Coupling

variable (C : Coupling)

structure Beside (d e : Draft) : Prop where
  same : ∃ dialect options cache parameters sql, e = d.over dialect options cache parameters sql
  held : C.held d e
  fragment : C.fragment d.sql e.sql

variable {C} {d e : Draft}

/-- A change on both sides that does not look at what differs. -/
theorem Beside.map {f : Draft → Draft} (h : C.Beside d e)
    (apart : ∀ d dialect options cache parameters sql,
      f (d.over dialect options cache parameters sql) =
        (f d).over dialect options cache parameters sql)
    (kept : ∀ d : Draft, d.SameHeld (f d)) (text : ∀ d, (f d).sql = d.sql) : C.Beside (f d) (f e) := by
  obtain ⟨⟨dialect, options, cache, parameters, sql, rfl⟩, held, fragment⟩ := h
  refine ⟨⟨dialect, options, cache, parameters, sql, apart ..⟩, C.congr held (kept _) (kept _), ?_⟩
  rwa [text, text]

end Coupling

namespace Build

variable {C : Coupling} {α β γ δ ι : Type} {related : α → β → Prop} {related' : γ → δ → Prop}

/-- Both operations succeed alike or fail alike, unless the first has an excuse. -/
def Couples (C : Coupling) (related : α → β → Prop) (x : Build α) (y : Build β) : Prop :=
  ∀ ⦃d e⦄, C.Beside d e →
    (∃ a d' b e', Gives x d a d' ∧ Gives y e b e' ∧ related a b ∧ C.Beside d' e') ∨
    ∃ u d', x.run d = (.error u, d') ∧ (C.excuses u ∨ ∃ e', y.run e = (.error u, e'))

abbrev InStep (C : Coupling) (x y : Build Unit) : Prop := Couples C (fun _ _ => True) x y

theorem Couples.of_gives {x : Build α} {y : Build β} {known : α → β → Prop}
    (hx : Couples C known x y)
    (h : ∀ {d e a b d' e'}, C.Beside d e → Gives x d a d' → Gives y e b e' → C.Beside d' e' →
      related a b) : Couples C related x y := by
  intro d e beside
  rcases hx beside with ⟨a, d', b, e', given, given', _, beside'⟩ | failed
  · exact .inl ⟨a, d', b, e', given, given', h beside given given' beside', beside'⟩
  · exact .inr failed

theorem couples_pure {a : α} {b : β} (h : related a b) : Couples C related (pure a) (pure b) :=
  fun d e beside => .inl ⟨a, d, b, e, rfl, rfl, h, beside⟩

theorem couples_throw (u : QueryError) : Couples C related (throw u) (throw u) :=
  fun d e _ => .inr ⟨u, d, rfl, .inr ⟨e, rfl⟩⟩

theorem couples_throw_bind (u : QueryError) (f : α → Build γ) (g : β → Build δ) :
    Couples C related' (throw u >>= f) (throw u >>= g) :=
  fun d e _ => .inr ⟨u, d, rfl, .inr ⟨e, rfl⟩⟩

theorem couples_get : Couples C C.Beside get get :=
  fun d e beside => .inl ⟨d, d, e, e, rfl, rfl, beside, beside⟩

theorem couples_set {d e : Draft} (h : C.Beside d e) : InStep C (set d) (set e) :=
  fun _ _ _ => .inl ⟨⟨⟩, d, ⟨⟩, e, rfl, rfl, trivial, h⟩

theorem couples_modify {f : Draft → Draft} (apart : ∀ d dialect options cache parameters sql,
      f (d.over dialect options cache parameters sql) =
        (f d).over dialect options cache parameters sql)
    (kept : ∀ d : Draft, d.SameHeld (f d)) (text : ∀ d, (f d).sql = d.sql) :
    InStep C (modify f) (modify f) :=
  fun d e beside => .inl ⟨⟨⟩, f d, ⟨⟩, f e, rfl, rfl, trivial, beside.map apart kept text⟩

theorem Couples.bind {x : Build α} {y : Build β} {f : α → Build γ} {g : β → Build δ}
    (hx : Couples C related x y) (hf : ∀ a b, related a b → Couples C related' (f a) (g b)) :
    Couples C related' (x >>= f) (y >>= g) := by
  intro d e beside
  rcases hx beside with ⟨a, d₁, b, e₁, given, given', hab, beside₁⟩ | ⟨u, d₁, failed, excuse⟩
  · rcases hf a b hab beside₁ with ⟨c, d₂, c', e₂, then₁, then₂, hc, beside₂⟩ | ⟨u, d₂, failed, excuse⟩
    · exact .inl ⟨c, d₂, c', e₂, gives_bind.2 ⟨a, d₁, given, then₁⟩,
        gives_bind.2 ⟨b, e₁, given', then₂⟩, hc, beside₂⟩
    · refine .inr ⟨u, d₂, ?_, excuse.imp_right fun ⟨e₂, failed'⟩ => ⟨e₂, ?_⟩⟩
      · rw [run_bind, given]
        exact failed
      · rw [run_bind, given']
        exact failed'
  · refine .inr ⟨u, d₁, ?_, excuse.imp_right fun ⟨e₁, failed'⟩ => ⟨e₁, ?_⟩⟩
    · rw [run_bind, failed]
    · rw [run_bind, failed']

theorem Couples.then {x y : Build Unit} {f g : Unit → Build γ} {related' : γ → γ → Prop}
    (hx : InStep C x y) (hf : Couples C related' (f ()) (g ())) :
    Couples C related' (x >>= f) (y >>= g) :=
  hx.bind fun _ _ _ => hf

theorem Couples.ite {c c' : Prop} [Decidable c] [Decidable c'] {x x' : Build α} {y y' : Build β}
    (same : c ↔ c') (hx : c → Couples C related x y) (hx' : ¬ c → Couples C related x' y') :
    Couples C related (if c then x else x') (if c' then y else y') := by
  by_cases holds : c
  · rw [if_pos holds, if_pos (same.1 holds)]
    exact hx holds
  · rw [if_neg holds, if_neg (mt same.2 holds)]
    exact hx' holds

theorem couples_mapM {f : ι → Build α} {g : ι → Build β} :
    ∀ {is : List ι}, (∀ i ∈ is, Couples C related (f i) (g i)) →
      Couples C (List.Forall₂ related) (is.mapM f) (is.mapM g)
  | [], _ => couples_pure .nil
  | i :: is, hf => by
    rw [List.mapM_cons, List.mapM_cons]
    refine (hf i List.mem_cons_self).bind fun a b hab => ?_
    refine (couples_mapM fun j hj => hf j (List.mem_cons_of_mem i hj)).bind fun as bs has => ?_
    exact couples_pure (.cons hab has)

theorem couples_forM {f g : ι → Build Unit} :
    ∀ {is : List ι}, (∀ i ∈ is, InStep C (f i) (g i)) → InStep C (is.forM f) (is.forM g)
  | [], _ => couples_pure trivial
  | i :: is, hf => by
    refine (hf i List.mem_cons_self).then ?_
    exact couples_forM fun j hj => hf j (List.mem_cons_of_mem i hj)

theorem couples_foldlM {f : α → ι → Build α} {g : β → ι → Build β}
    (hf : ∀ a b i, related a b → Couples C related (f a i) (g b i)) :
    ∀ (is : List ι) {a : α} {b : β}, related a b →
      Couples C related (is.foldlM f a) (is.foldlM g b)
  | [], _, _, hab => couples_pure hab
  | i :: is, a, b, hab => by
    rw [List.foldlM_cons, List.foldlM_cons]
    exact (hf a b i hab).bind fun a' b' hab' => couples_foldlM hf is hab'

theorem Couples.guarded {x : Build α} {y : Build β} (hx : Couples C related x y) :
    Couples C related (guarded x) (guarded y) := by
  intro d e beside
  have same : e.failure = d.failure := by
    obtain ⟨⟨_, _, _, _, _, rfl⟩, _, _⟩ := beside
    rfl
  cases failure : d.failure with
  | some u =>
    rw [failure] at same
    exact .inr ⟨u, d, run_guarded_failed failure, .inr ⟨e, run_guarded_failed same⟩⟩
  | none =>
    rw [failure] at same
    rcases hx beside with ⟨a, d', b, e', given, given', hab, beside'⟩ | ⟨u, d', failed, excuse⟩
    · exact .inl ⟨a, d', b, e', gives_guarded.2 ⟨failure, given⟩, gives_guarded.2 ⟨same, given'⟩,
        hab, beside'⟩
    · refine .inr ⟨u, { d' with failure := some u }, ?_, ?_⟩
      · rw [run_guarded failure, failed]
      · refine excuse.imp_right fun ⟨e', failed'⟩ => ⟨{ e' with failure := some u }, ?_⟩
        rw [run_guarded same, failed']

/-- The children are coupled in their own way, and what is known of their runs may be said of the
results. -/
theorem Couples.inChild {C' : Coupling} {known : α → β → Prop} {x : Build α} {y : Build β}
    (hx : Couples C' known x y) (fresh : ∀ {d e}, C.Beside d e → C'.Beside d.child e.child)
    (returns : ∀ {d e d' e'}, C.Beside d e → C'.Beside d' e' →
      C.Beside { d with cache := d'.cache } { e with cache := e'.cache })
    (results : ∀ {d e a b d' e'}, C.Beside d e → Gives x d.child a d' → Gives y e.child b e' →
      known a b → C'.Beside d' e' → related a b)
    (excuses : ∀ u, C'.excuses u → C.excuses u) :
    Couples C related (inChild x) (inChild y) := by
  intro d e beside
  rcases hx (fresh beside) with ⟨a, d', b, e', given, given', hab, beside'⟩ | ⟨u, d', failed, excuse⟩
  · exact .inl ⟨a, _, b, _, gives_inChild.2 ⟨d', given, rfl⟩, gives_inChild.2 ⟨e', given', rfl⟩,
      results beside given given' hab beside', returns beside beside'⟩
  · refine .inr ⟨u, { d with cache := d'.cache }, ?_, ?_⟩
    · rw [run_inChild, failed]
    · refine excuse.imp (excuses u) fun ⟨e', failed'⟩ => ⟨{ e with cache := e'.cache }, ?_⟩
      rw [run_inChild, failed']

theorem couples_orFail (found : Option α) (u : QueryError) :
    Couples C (fun a b => a = b) (orFail found u) (orFail found u) := by
  cases found with
  | none => exact couples_throw u
  | some a => exact couples_pure rfl

theorem couples_expect (next : Clause) : InStep C (expect next) (expect next) := by
  refine couples_get.bind fun d e beside => ?_
  obtain ⟨⟨_, _, _, _, _, rfl⟩, _, _⟩ := beside
  exact .ite Iff.rfl (fun _ => couples_pure trivial) fun _ => couples_throw _

theorem couples_write {a b : Sql} (h : C.fragment a b) : InStep C (write a) (write b) := by
  intro d e beside
  obtain ⟨⟨dialect, options, cache, parameters, sql, rfl⟩, held, fragment⟩ := beside
  refine .inl ⟨⟨⟩, { d with sql := d.sql ++ a }, ⟨⟩, _, rfl, rfl, trivial, ?_⟩
  refine ⟨⟨dialect, options, cache, parameters, sql ++ b, rfl⟩, ?_, C.append fragment h⟩
  exact C.congr held ⟨rfl, rfl, rfl, rfl, rfl⟩ ⟨rfl, rfl, rfl, rfl, rfl⟩

theorem couples_moveTo (clause : Clause) : InStep C (moveTo clause) (moveTo clause) :=
  couples_modify (fun _ _ _ _ _ _ => rfl) (fun _ => ⟨rfl, rfl, rfl, rfl, rfl⟩) fun _ => rfl

end Build
end DmlCompiler
