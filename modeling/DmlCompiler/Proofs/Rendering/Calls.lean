import DmlCompiler.Proofs.Rendering.Expressions

/-! # What calls write

Every call with valid parts takes a written draft to a written draft: its text is a statement, or
the beginning of one that awaits an operand, and holds the places of its parameters. -/
namespace DmlCompiler

open Build Sql

namespace Clause

theorem mem_of_mayFollow {next current : Clause} (h : next.mayFollow current = true) :
    current ∈ next.predecessors := List.contains_iff_mem.1 h

structure IsInside (c : Clause) : Prop where
  started : c ≠ .start
  separate : c ≠ .union
  listed : c ≠ .select

theorem IsInside.of (c : Clause) (h : c ∉ [.start, .union, .select]) : c.IsInside := by
  simp only [List.mem_cons, List.not_mem_nil, or_false, not_or] at h
  exact ⟨h.1, h.2.1, h.2.2⟩

/-- These clauses stand inside of a statement. -/
theorem isInside_of_mayFollow {next current : Clause} (follows : next.mayFollow current = true)
    (later : next ∉ [.select, .from, .insert, .update, .delete, .truncate]) :
    current.IsInside := by
  have mem := mem_of_mayFollow follows
  refine ⟨?_, ?_, ?_⟩ <;>
  · rintro rfl
    revert mem later
    cases next <;> decide

end Clause

namespace Draft

def isOpen (d : Draft) : Bool := d.clause = .start || d.clause = .union || d.listPending

/-- The text is a statement, or the beginning of one, with the places of all parameters. -/
structure Written (inOrder : Prop) (registry : Registry) (d : Draft) : Prop where
  orderly : d.Orderly inOrder registry
  fills : Fills inOrder 0 d.parameters.length d.sql.places
  pending : d.listPending = true → d.clause = .select
  text : if d.isOpen then Opens 0 d.sql else Sound d.sql

structure SameText (d d' : Draft) : Prop where
  sql : d'.sql = d.sql
  clause : d'.clause = d.clause
  listPending : d'.listPending = d.listPending

instance : IsPreorder Draft SameText where
  refl _ := ⟨rfl, rfl, rfl⟩
  trans _ _ _ h h' := ⟨h'.1.trans h.1, h'.2.trans h.2, h'.3.trans h.3⟩

theorem Appends.sameText {d d' : Draft} (h : d.Appends d') : d.SameText d' := by
  obtain ⟨_, _, rfl⟩ := h
  exact ⟨rfl, rfl, rfl⟩

variable {inOrder : Prop} {registry : Registry} {d d₁ d' : Draft} {piece : Sql}

theorem Written.opens (h : d.Written inOrder registry) (isOpen : d.isOpen = true) :
    Opens 0 d.sql := by
  have text := h.text
  rwa [if_pos isOpen] at text

theorem Written.sound (h : d.Written inOrder registry) (closed : d.isOpen = false) :
    Sound d.sql := by
  have text := h.text
  rwa [if_neg (by simp [closed])] at text

/-- Only a select may wait for its list. -/
theorem Written.closed (h : d.Written inOrder registry) (inside : d.clause.IsInside) :
    d.isOpen = false := by
  obtain ⟨started, separate, listed⟩ := inside
  have idle : d.listPending = false := by
    by_contra pending
    exact listed (h.pending (by simpa using pending))
  simp [isOpen, started, separate, idle]

structure SameParameters (d d' : Draft) : Prop where
  registry : d'.registry = d.registry
  dialect : d'.dialect = d.dialect
  parameters : d'.parameters = d.parameters
  cache : d'.cache = d.cache

theorem Orderly.congr (h : d.Orderly inOrder registry) (same : d.SameParameters d') :
    d'.Orderly inOrder registry where
  registry := same.registry.trans h.registry
  dialect ordered := same.dialect ▸ h.dialect ordered
  names := by rw [same.parameters, same.dialect, h.names]
  cache := same.cache ▸ h.cache

theorem Adds.congr_left {ks : List Nat} (h : d₁.Adds inOrder registry d' ks)
    (same : d.SameParameters d₁) : d.Adds inOrder registry d' ks :=
  ⟨h.orderly, same.parameters ▸ h.fills⟩

/-- A piece of text written behind that of a written draft, with the places it has added. -/
theorem Written.extend (hd : d.Written inOrder registry)
    (added : d.Adds inOrder registry d₁ piece.places) (same : d₁.SameParameters d')
    (sql : d'.sql = d.sql ++ piece) (pending : d'.listPending = true → d'.clause = .select)
    (text : if d'.isOpen then Opens 0 (d.sql ++ piece) else Sound (d.sql ++ piece)) :
    d'.Written inOrder registry where
  orderly := added.orderly.congr same
  fills := by
    rw [sql, places_append, same.parameters]
    exact hd.fills.append added.fills
  pending := pending
  text := by rwa [sql]

/-- Inside of a statement the piece stands behind an operand and leaves one. -/
theorem Written.continue (hd : d.Written inOrder registry) (closed : d.isOpen = false)
    (appends : d.Appends d₁) (added : d.Adds inOrder registry d₁ piece.places)
    (good : Continues piece) (same : d₁.SameParameters d') (sql : d'.sql = d₁.sql ++ piece)
    (pending : d'.listPending = d₁.listPending) (clause : d'.clause.IsInside) :
    d'.Written inOrder registry := by
  have text := appends.sameText
  have idle : d'.listPending = false := by
    rw [pending, text.listPending]
    simp only [isOpen, Bool.or_eq_false_iff] at closed
    exact closed.2
  refine hd.extend added same (by rw [sql, text.sql]) (by simp [idle]) ?_
  have stays : d'.isOpen = false := by simp [isOpen, idle, clause.started, clause.separate]
  rw [if_neg (by simp [stays])]
  exact (hd.sound closed).continue good

theorem Written.start (hd : d.Written inOrder registry) (clause : d.clause = .start)
    (places : piece.places = []) (good : Sound piece) (same : d.SameParameters d')
    (sql : d'.sql = d.sql ++ piece) (pending : d'.listPending = d.listPending)
    (inside : d'.clause.IsInside) : d'.Written inOrder registry := by
  have awaits : Opens 0 d.sql := hd.opens (by simp [isOpen, clause])
  have idle : d'.listPending = false := by
    rw [pending]
    by_contra waits
    have listed := hd.pending (by simpa using waits)
    rw [clause] at listed
    cases listed
  have nothing : d.Adds inOrder registry d piece.places := by
    rw [places]
    exact hd.orderly.adds
  refine hd.extend nothing same sql (by simp [idle]) ?_
  have closed : d'.isOpen = false := by simp [isOpen, idle, inside.started, inside.separate]
  rw [if_neg (by simp [closed])]
  exact awaits.sound good

end Draft

variable {inOrder : Prop} {registry : Registry} {compile : Query → Build Command}
  {d d' : Draft} {u : Unit}

namespace Entity.IsValid

theorem selectList_sound {e : Entity} (h : e.IsValid) : Sound (ofString e.selectList) := by
  unfold Entity.selectList
  split
  · exact fun n => ⟨.done, .done, rfl⟩
  · next listed =>
    simp only [Bool.or_eq_true, List.isEmpty_iff, not_or] at listed
    have list : ofString (", ".intercalate (e.selectable.map fun c => (e.ref c).sql)) =
        join ", " (e.selectable.map fun c => ofString (e.ref c).sql) := by
      rw [ofString_intercalate, List.map_map]
      rfl
    rw [list]
    refine sound_join Expression.separates_comma ?_ (by simpa using listed.2)
    intro sql mem
    obtain ⟨c, hc, rfl⟩ := List.mem_map.1 mem
    exact (h.ref (List.mem_filter.1 hc).1).sound

end Entity.IsValid

namespace Build

theorem checkPermission_gives {e : Entity} {kind : StatementKind}
    (given : Gives (checkPermission e kind) d u d') : d' = d :=
  (Keeps.ite (r := Eq) (keeps_pure ()) (keeps_throw _) given).symm

theorem checkTarget_gives {e : Entity} {kind : StatementKind}
    (given : Gives (checkTarget e kind) d u d') : d' = d := by
  refine (Keeps.ite (r := Eq) (keeps_throw_bind _ _) ?_ given).symm
  exact Keeps.ite (keeps_pure ()) (keeps_throw _)

theorem checkColumn_gives {x : Expression} (given : Gives (checkColumn x) d u d') : d' = d :=
  (Keeps.bind (r := Eq) keeps_get (fun _ => .ite (keeps_throw _) (keeps_pure ())) given).symm

theorem limitRows_gives {limit : Option UInt64} (given : Gives (limitRows limit) d u d') :
    ∃ rowLimit, d' = { d with rowLimit := rowLimit } := by
  cases limit with
  | none => exact ⟨d.rowLimit, (gives_pure.1 given).2⟩
  | some limit =>
    rw [limitRows, gives_get_bind] at given
    split at given
    · exact ⟨some limit, gives_set.1 given⟩
    · exact (gives_throw.1 given).elim

theorem orFail_gives {α : Type} {found : Option α} {e : QueryError} {a : α}
    (given : Gives (orFail found e) d a d') : found = some a ∧ d' = d := by
  cases found with
  | none => exact (gives_throw.1 given).elim
  | some b =>
    obtain ⟨rfl, rfl⟩ := gives_pure.1 given
    exact ⟨rfl, rfl⟩

theorem select1_adds (hc : NumbersCommands inOrder registry compile) {x : Expression} {sql : Sql}
    (some : x.isEmpty = false) (valid : ∀ p ∈ x.parts, p.IsValid (Numbered inOrder) registry)
    (hd : d.Orderly inOrder registry) (given : Gives (select1 compile x) d sql d') :
    d.Adds inOrder registry d' sql.places ∧ Sound sql := by
  obtain ⟨own, d₁, rendered, given⟩ := gives_bind.1 given
  obtain ⟨_, d₂, counted, given⟩ := gives_bind.1 given
  obtain ⟨rfl, rfl⟩ := gives_pure.1 given
  obtain rfl := gives_modify.1 counted
  obtain ⟨added, good⟩ := x.projection_adds hc some valid hd rendered
  exact ⟨⟨added.orderly.congr ⟨rfl, rfl, rfl, rfl⟩, added.fills⟩, good⟩

theorem select1_sameText (x : Expression) : Keeps Draft.SameText (select1 compile x) := by
  refine (x.projection_appends.mono fun _ _ => Draft.Appends.sameText).bind fun sql => ?_
  exact Keeps.bind (keeps_modify fun _ => ⟨rfl, rfl, rfl⟩) fun _ => keeps_pure sql

theorem selectBlock_written (hc : NumbersCommands inOrder registry compile)
    {properties : List Expression} {distinct : Bool} {limit : Option UInt64}
    (valid : ∀ x ∈ properties, ∀ p ∈ x.parts, p.IsValid (Numbered inOrder) registry)
    (hd : d.Written inOrder registry)
    (given : Gives (selectBlock compile properties distinct limit) d u d') :
    d'.Written inOrder registry := by
  obtain ⟨_, d₁, expected, afterExpect⟩ := gives_bind.1 given
  obtain ⟨follows, rfl⟩ := expect_gives expected
  obtain ⟨_, d₂, limited, afterLimit⟩ := gives_bind.1 afterExpect
  obtain ⟨_, d₃, kinded, afterKind⟩ := gives_bind.1 afterLimit
  obtain ⟨_, d₄, opened, afterOpening⟩ := gives_bind.1 afterKind
  obtain ⟨list, d₅, listed, afterList⟩ := gives_bind.1 afterOpening
  obtain ⟨_, d₆, wrote, moved⟩ := gives_bind.1 afterList
  have start : d₁.SameParameters d₄ ∧ d₄.listPending = d₁.listPending ∧
      d₄.sql = d₁.sql ++ ofString (if distinct then "SELECT DISTINCT " else "SELECT ") := by
    obtain ⟨rowLimit, rfl⟩ := limitRows_gives limited
    obtain rfl := gives_modify.1 kinded
    obtain rfl := gives_modify.1 opened
    exact ⟨⟨rfl, rfl, rfl, rfl⟩, rfl, rfl⟩
  obtain ⟨same, notPending, sql⟩ := start
  have text := keeps_mapM (fun x => select1_sameText x) _ listed
  have each : ∀ x ∈ properties.filter (!·.isEmpty), ∀ {d d' : Draft} {sql : Sql},
      d.Orderly inOrder registry → Gives (select1 compile x) d sql d' →
      d.Adds inOrder registry d' sql.places ∧ Sound sql := by
    intro x hx d d' sql hd given
    obtain ⟨mem, some⟩ := List.mem_filter.1 hx
    exact select1_adds hc (by simpa using some) (valid x mem) hd given
  obtain ⟨added, good⟩ := mapM_adds (hd.orderly.congr same) each listed
  have selects : Opens 0 (ofString (if distinct then "SELECT DISTINCT " else "SELECT ")) := by
    cases distinct <;> exact fun _ => rfl
  have follows : d₁.clause = .start ∨ d₁.clause = .union := by
    simpa [Clause.predecessors] using Clause.mem_of_mayFollow follows
  have awaits : Opens 0 d₁.sql := hd.opens (by
    rcases follows with follows | follows <;> simp [Draft.isOpen, follows])
  have idle : d₁.listPending = false := by
    by_contra pending
    rw [hd.pending (by simpa using pending)] at follows
    simp at follows
  have added := added.congr_left same
  have written : d₅.sql = d₁.sql ++ _ := text.sql.trans sql
  cases list with
  | nil =>
    obtain rfl := gives_modify.1 wrote
    obtain rfl := gives_modify.1 moved
    have added : d₁.Adds inOrder registry d₅
        (ofString (if distinct then "SELECT DISTINCT " else "SELECT ")).places := by
      simpa using added
    refine hd.extend added ⟨rfl, rfl, rfl, rfl⟩ written (fun _ => rfl) ?_
    exact awaits.append selects
  | cons first rest =>
    obtain rfl := gives_modify.1 wrote
    obtain rfl := gives_modify.1 moved
    have list := sound_join Expression.separates_comma good (List.cons_ne_nil first rest)
    have added : d₁.Adds inOrder registry d₅
        (ofString (if distinct then "SELECT DISTINCT " else "SELECT ") ++
          join ", " (first :: rest)).places := by
      simpa using added
    refine hd.extend added ⟨rfl, rfl, rfl, rfl⟩ ?_ (fun _ => rfl) ?_
    · rw [← List.append_assoc, ← written]
    · have complete : d₅.listPending = false := text.listPending.trans (notPending.trans idle)
      simp only [Draft.isOpen, complete]
      exact awaits.sound (selects.sound list)

theorem defaultList_adds {e : Entity} {list : String} (valid : e.IsValid)
    (hd : d.Orderly inOrder registry) (given : Gives (defaultList e) d list d') :
    d.Adds inOrder registry d' [] ∧ Sound (ofString list) := by
  rw [defaultList, gives_get_bind] at given
  split at given
  · simp only [gives_bind, gives_set, gives_pure] at given
    obtain ⟨_, _, rfl, rfl, rfl⟩ := given
    obtain ⟨⟨e', he', list⟩, cache⟩ := hd.cache.fetch valid
    have good : Sound (ofString (d.cache.fetch e).1) := by
      rw [list]
      exact he'.selectList_sound
    exact ⟨⟨⟨hd.registry, hd.dialect, hd.names, cache⟩, .empty⟩, good⟩
  · obtain ⟨rfl, rfl⟩ := gives_pure.1 given
    exact ⟨hd.adds, valid.selectList_sound⟩

theorem writePendingList_written {e : Entity} (valid : e.IsValid) (hd : d.Written inOrder registry)
    (clause : d.clause = .select) (given : Gives (writePendingList e) d u d') :
    d'.Written inOrder registry ∧ d'.isOpen = false := by
  rw [writePendingList, gives_get_bind] at given
  split at given
  · next pending =>
    obtain ⟨list, d₁, listed, later⟩ := gives_bind.1 given
    obtain ⟨_, d₂, wrote, unset⟩ := gives_bind.1 later
    obtain ⟨added, good⟩ := defaultList_adds valid hd.orderly listed
    have text := (defaultList_appends e listed).sameText
    obtain rfl := gives_modify.1 wrote
    obtain rfl := gives_modify.1 unset
    have closed : d₁.clause = .select := text.clause.trans clause
    constructor
    · have added : d.Adds inOrder registry d₁ (ofString list).places := by simpa using added
      refine hd.extend added ⟨rfl, rfl, rfl, rfl⟩ (by rw [text.sql])
        (fun pending => by cases pending) ?_
      simp only [Draft.isOpen, closed]
      exact (hd.opens (by simp [Draft.isOpen, pending])).sound good
    · simp [Draft.isOpen, closed]
  · next idle =>
    obtain ⟨_, rfl⟩ := gives_pure.1 given
    exact ⟨hd, by simp [Draft.isOpen, clause, idle]⟩

theorem separated_name {text name : String} (separates : Separates (ofString text))
    (valid : Identifier.check name = .ok ()) : Continues (ofString (text ++ name)) := by
  rw [ofString_append]
  exact separates.sound (isName_of_check valid).sound

theorem opened_name {text name : String} (opens : Opens 0 (ofString text))
    (valid : Identifier.check name = .ok ()) : Sound (ofString (text ++ name)) := by
  rw [ofString_append]
  exact opens.sound (isName_of_check valid).sound

theorem fromEntity_written {e : Entity} (valid : e.IsValid) (hd : d.Written inOrder registry)
    (given : Gives (fromEntity e) d u d') : d'.Written inOrder registry := by
  obtain ⟨_, d₁, expected, afterExpect⟩ := gives_bind.1 given
  obtain ⟨follows, rfl⟩ := expect_gives expected
  obtain ⟨_, d₂, permitted, afterCheck⟩ := gives_bind.1 afterExpect
  obtain rfl := checkPermission_gives permitted
  obtain ⟨_, d₃, listed, afterList⟩ := gives_bind.1 afterCheck
  obtain ⟨_, d₄, wrote, afterWrite⟩ := gives_bind.1 afterList
  obtain ⟨_, d₅, target, moved⟩ := gives_bind.1 afterWrite
  have clause : d₂.clause = .select := by
    simpa [Clause.predecessors] using Clause.mem_of_mayFollow follows
  obtain ⟨written, closed⟩ := writePendingList_written valid hd clause listed
  obtain rfl := gives_modify.1 wrote
  obtain rfl := gives_modify.1 target
  obtain rfl := gives_modify.1 moved
  have separates : Separates (ofString " FROM ") := .of (fun _ => rfl) fun _ => rfl
  have nothing : d₃.Adds inOrder registry d₃ (ofString s!" FROM {e.table}").places := by
    simpa using written.orderly.adds
  exact written.continue closed (refl d₃) nothing (separated_name separates valid.table)
    ⟨rfl, rfl, rfl, rfl⟩ rfl rfl (.of .from (by decide))

theorem onClause_adds (hc : NumbersCommands inOrder registry compile) {kind : JoinKind}
    {e : Entity} {on : Option Expression} {sql : Sql}
    (valid : ∀ x ∈ on.toList, ∀ p ∈ x.parts, p.IsValid (Numbered inOrder) registry)
    (hd : d.Orderly inOrder registry) (given : Gives (onClause compile kind e on) d sql d') :
    d.Adds inOrder registry d' sql.places ∧ Continues sql := by
  unfold onClause at given
  dsimp only at given
  split at given
  · split at given
    · exact (gives_throw.1 given).elim
    · next x =>
      obtain ⟨condition, d₁, rendered, given⟩ := gives_bind.1 given
      obtain ⟨added, good⟩ := Expression.predicate_adds hc
        (valid x (by simp)) hd rendered
      split at given
      · exact (gives_throw.1 given).elim
      · next some =>
        obtain ⟨rfl, rfl⟩ := gives_pure.1 given
        have separates : Separates (ofString " ON ") := .of (fun _ => rfl) fun _ => rfl
        exact ⟨by simpa using added, separates.sound (good (by simpa using some))⟩
  · obtain ⟨rfl, rfl⟩ := gives_pure.1 given
    exact ⟨hd.adds, continues_nil⟩

theorem joinEntity_written (hc : NumbersCommands inOrder registry compile) {kind : JoinKind}
    {e : Entity} {on : Option Expression}
    (valid : ∀ x ∈ on.toList, ∀ p ∈ x.parts, p.IsValid (Numbered inOrder) registry) (he : e.IsValid)
    (hd : d.Written inOrder registry) (given : Gives (joinEntity compile kind e on) d u d') :
    d'.Written inOrder registry := by
  obtain ⟨_, d₁, expected, afterExpect⟩ := gives_bind.1 given
  obtain ⟨follows, rfl⟩ := expect_gives expected
  obtain ⟨_, d₂, permitted, afterCheck⟩ := gives_bind.1 afterExpect
  obtain rfl := checkPermission_gives permitted
  obtain ⟨condition, d₃, rendered, afterCondition⟩ := gives_bind.1 afterCheck
  obtain ⟨_, d₄, wrote, moved⟩ := gives_bind.1 afterCondition
  obtain ⟨added, good⟩ := onClause_adds hc valid hd.orderly rendered
  have appends := onClause_appends kind e on rendered
  obtain rfl := gives_modify.1 wrote
  obtain rfl := gives_modify.1 moved
  have separates : Separates (ofString s!" {kind.sql} ") := by
    intro n e closed
    cases closed <;> cases kind <;> rfl
  have closed := hd.closed (Clause.isInside_of_mayFollow follows (by decide))
  exact hd.continue closed appends (by simpa using added)
    ((separated_name separates he.table).append good) ⟨rfl, rfl, rfl, rfl⟩ rfl rfl
    (.of .join (by decide))

theorem condition_continues {keyword : String} (first : Bool) (x : Expression) {sql : Sql}
    (good : Sound sql)
    (opens : ∀ n e, Edge.Closed e → Lexes (n, e) (ofString keyword) (n + 1, .gap)) :
    Continues (ofString (opener keyword first x) ++ sql ++ ofString ")") := by
  intro n e closed
  have before : Lexes (n, e) (ofString (opener keyword first x)) (n + 1, .gap) := by
    unfold opener
    split
    · exact opens n e closed
    · split <;> cases closed <;> rfl
  obtain ⟨e', closed', inner⟩ := good (n + 1)
  have close : Lexes (n + 1, e') (ofString ")") (n, .done) := lexes_closing closed' 0
  exact ⟨.done, .done, (before.append inner).append close⟩

structure AddsCondition (d d' : Draft) (sql : Sql) : Prop where
  same : d.SameParameters d'
  listPending : d'.listPending = d.listPending
  text : ∃ piece, d'.sql = d.sql ++ piece ∧ piece.places = sql.places ∧
    (SoundIfSome sql → Continues piece)

theorem addsCondition_nil (d : Draft) : AddsCondition d d [] where
  same := ⟨rfl, rfl, rfl, rfl⟩
  listPending := rfl
  text := ⟨[], (List.append_nil _).symm, rfl, fun _ => continues_nil⟩

theorem addsCondition_piece {keyword : String} (first : Bool) (x : Expression) {sql : Sql}
    (nonempty : sql ≠ []) (same : d.SameParameters d')
    (listPending : d'.listPending = d.listPending)
    (text : d'.sql = d.sql ++ (ofString (opener keyword first x) ++ sql ++ ofString ")"))
    (opens : ∀ n e, Edge.Closed e → Lexes (n, e) (ofString keyword) (n + 1, .gap)) :
    AddsCondition d d' sql where
  same := same
  listPending := listPending
  text := ⟨_, text, by simp, fun good => condition_continues first x (good nonempty) opens⟩

theorem addWhere_gives {x : Expression} {sql : Sql} (given : Gives (addWhere x sql) d u d') :
    AddsCondition d d' sql := by
  unfold addWhere at given
  split at given
  · next nonempty =>
    rw [gives_get_bind] at given
    obtain ⟨_, d₁, opened, wrote⟩ := gives_bind.1 given
    obtain rfl := gives_modify.1 opened
    obtain rfl := gives_modify.1 wrote
    refine addsCondition_piece _ x (by simpa using nonempty) ⟨rfl, rfl, rfl, rfl⟩ rfl rfl ?_
    intro n e closed
    cases closed <;> rfl
  · next empty =>
    obtain ⟨_, rfl⟩ := gives_pure.1 given
    obtain rfl : sql = [] := by simpa using empty
    exact addsCondition_nil d'

theorem addHaving_gives {x : Expression} {sql : Sql} (given : Gives (addHaving x sql) d u d') :
    AddsCondition d d' sql := by
  unfold addHaving at given
  split at given
  · next nonempty =>
    rw [gives_get_bind] at given
    obtain ⟨_, d₁, opened, wrote⟩ := gives_bind.1 given
    obtain rfl := gives_modify.1 opened
    obtain rfl := gives_modify.1 wrote
    refine addsCondition_piece _ x (by simpa using nonempty) ⟨rfl, rfl, rfl, rfl⟩ rfl rfl ?_
    intro n e closed
    cases closed <;> rfl
  · next empty =>
    obtain ⟨_, rfl⟩ := gives_pure.1 given
    obtain rfl : sql = [] := by simpa using empty
    exact addsCondition_nil d'

/-- A condition that is rendered and added extends the statement. -/
theorem AddsCondition.written {x : Expression} {d₁ d₂ : Draft} {sql : Sql} {next : Clause}
    (hc : NumbersCommands inOrder registry compile)
    (valid : ∀ p ∈ x.parts, p.IsValid (Numbered inOrder) registry) (hd : d.Written inOrder registry)
    (closed : d.isOpen = false) (rendered : Gives (x.predicate compile) d sql d₁)
    (added : AddsCondition d₁ d₂ sql) (inside : next.IsInside) :
    Draft.Written inOrder registry { d₂ with clause := next } := by
  obtain ⟨adds, good⟩ := x.predicate_adds hc valid hd.orderly rendered
  obtain ⟨piece, sql, places, continues⟩ := added.text
  have same := added.same
  exact hd.continue closed (x.predicate_appends rendered) (by rw [places]; exact adds)
    (continues good) ⟨same.registry, same.dialect, same.parameters, same.cache⟩ sql
    added.listPending inside

theorem filterBy_written (hc : NumbersCommands inOrder registry compile) {x : Expression}
    (valid : ∀ p ∈ x.parts, p.IsValid (Numbered inOrder) registry) (hd : d.Written inOrder registry)
    (given : Gives (filterBy compile x) d u d') : d'.Written inOrder registry := by
  obtain ⟨_, d₁, expected, afterExpect⟩ := gives_bind.1 given
  obtain ⟨follows, rfl⟩ := expect_gives expected
  obtain ⟨sql, d₂, rendered, afterPredicate⟩ := gives_bind.1 afterExpect
  obtain ⟨_, d₃, added, moved⟩ := gives_bind.1 afterPredicate
  obtain rfl := gives_modify.1 moved
  have closed := hd.closed (Clause.isInside_of_mayFollow follows (by decide))
  exact (addWhere_gives added).written hc valid hd closed rendered (.of .where (by decide))

theorem havingBy_written (hc : NumbersCommands inOrder registry compile) {x : Expression}
    (valid : ∀ p ∈ x.parts, p.IsValid (Numbered inOrder) registry) (hd : d.Written inOrder registry)
    (given : Gives (havingBy compile x) d u d') : d'.Written inOrder registry := by
  obtain ⟨_, d₁, expected, afterExpect⟩ := gives_bind.1 given
  obtain ⟨follows, rfl⟩ := expect_gives expected
  obtain ⟨sql, d₂, rendered, afterPredicate⟩ := gives_bind.1 afterExpect
  obtain ⟨_, d₃, added, moved⟩ := gives_bind.1 afterPredicate
  obtain rfl := gives_modify.1 moved
  have closed := hd.closed (Clause.isInside_of_mayFollow follows (by decide))
  exact (addHaving_gives added).written hc valid hd closed rendered (.of .having (by decide))

theorem nonEmptyList_gives {clause : Clause} {list : List Sql} {sql : Sql}
    (given : Gives (nonEmptyList clause list) d sql d') :
    list ≠ [] ∧ sql = join ", " list ∧ d' = d := by
  unfold nonEmptyList at given
  split at given
  · exact (gives_throw.1 given).elim
  · next some =>
    obtain ⟨rfl, rfl⟩ := gives_pure.1 given
    exact ⟨by simpa using some, rfl, rfl⟩

theorem groupBy_written {properties : List Expression}
    (valid : ∀ x ∈ properties, ∀ p ∈ x.parts, p.IsValid (Numbered inOrder) registry)
    (hd : d.Written inOrder registry) (given : Gives (groupBy properties) d u d') :
    d'.Written inOrder registry := by
  obtain ⟨_, d₁, expected, afterExpect⟩ := gives_bind.1 given
  obtain ⟨follows, rfl⟩ := expect_gives expected
  obtain ⟨list, d₂, rendered, afterList⟩ := gives_bind.1 afterExpect
  obtain ⟨sql, d₃, joined, afterJoin⟩ := gives_bind.1 afterList
  obtain ⟨some, rfl, rfl⟩ := nonEmptyList_gives joined
  obtain ⟨_, d₄, wrote, moved⟩ := gives_bind.1 afterJoin
  have appends := keeps_mapM (fun x => x.reference_appends) _ rendered
  obtain ⟨added, good⟩ := mapM_adds hd.orderly
    (fun x hx d sql d' hd given => x.reference_adds (valid x (List.mem_filter.1 hx).1) hd given)
    rendered
  obtain rfl := gives_modify.1 wrote
  obtain rfl := gives_modify.1 moved
  have separates : Separates (ofString " GROUP BY ") := .of (fun _ => rfl) fun _ => rfl
  have closed := hd.closed (Clause.isInside_of_mayFollow follows (by decide))
  exact hd.continue closed appends (by simpa using added)
    (separates.sound (sound_join Expression.separates_comma good some)) ⟨rfl, rfl, rfl, rfl⟩ rfl rfl
    (.of .groupBy (by decide))

theorem sortKey_adds {x : Expression} {sql : Sql}
    (valid : ∀ p ∈ x.parts, p.IsValid (Numbered inOrder) registry) (hd : d.Orderly inOrder registry)
    (given : Gives (sortKey x) d sql d') : d.Adds inOrder registry d' sql.places ∧ Sound sql := by
  obtain ⟨own, d₁, referred, given⟩ := gives_bind.1 given
  obtain ⟨added, good⟩ := x.reference_adds valid hd referred
  split at given
  · next order _ =>
    obtain ⟨rfl, rfl⟩ := gives_pure.1 given
    refine ⟨by simpa using added, good.continue fun n e closed => ⟨.word, .word, ?_⟩⟩
    cases closed <;> cases order <;> rfl
  · obtain ⟨rfl, rfl⟩ := gives_pure.1 given
    exact ⟨added, good⟩

theorem separates_first {c : Prop} [Decidable c] {first later : String}
    (hf : Separates (ofString first)) (hl : Separates (ofString later)) :
    Separates (ofString (if c then later else first)) := by
  split
  · exact hl
  · exact hf

theorem orderBy_written {properties : List Expression}
    (valid : ∀ x ∈ properties, ∀ p ∈ x.parts, p.IsValid (Numbered inOrder) registry)
    (hd : d.Written inOrder registry) (given : Gives (orderBy properties) d u d') :
    d'.Written inOrder registry := by
  obtain ⟨_, d₁, expected, afterExpect⟩ := gives_bind.1 given
  obtain ⟨follows, rfl⟩ := expect_gives expected
  obtain ⟨list, d₂, rendered, afterList⟩ := gives_bind.1 afterExpect
  obtain ⟨sql, d₃, joined, afterJoin⟩ := gives_bind.1 afterList
  obtain ⟨some, rfl, rfl⟩ := nonEmptyList_gives joined
  rw [gives_get_bind] at afterJoin
  obtain ⟨_, d₄, wrote, moved⟩ := gives_bind.1 afterJoin
  have appends := keeps_mapM (fun x => sortKey_appends x) _ rendered
  obtain ⟨added, good⟩ := mapM_adds hd.orderly
    (fun x hx d sql d' hd given => sortKey_adds (valid x (List.mem_filter.1 hx).1) hd given)
    rendered
  obtain rfl := gives_modify.1 wrote
  obtain rfl := gives_modify.1 moved
  have opens : Separates (ofString " ORDER BY ") := .of (fun _ => rfl) fun _ => rfl
  have closed := hd.closed (Clause.isInside_of_mayFollow follows (by decide))
  exact hd.continue closed appends (by simpa using added)
    ((separates_first opens Expression.separates_comma).sound
      (sound_join Expression.separates_comma good some)) ⟨rfl, rfl, rfl, rfl⟩ rfl rfl
    (.of .orderBy (by decide))

theorem insertList_valid {holds : Command → Prop} {e : Entity} {properties : List Expression}
    (he : e.IsValid) (valid : ∀ x ∈ properties, ∀ p ∈ x.parts, p.IsValid holds registry) :
    ∀ x ∈ insertList e properties, ∀ c ∈ x.column, c.IsValid := by
  intro x hx c hc
  unfold insertList at hx
  split at hx
  · obtain ⟨column, mem, rfl⟩ := List.mem_map.1 hx
    cases hc
    exact he.ref (List.mem_filter.1 mem).1
  · exact valid x hx _ (Expression.column_mem_parts hc)

theorem insertText_sound {table : String} {names : List String}
    (ht : Identifier.check table = .ok ()) (hn : ∀ name ∈ names, Identifier.check name = .ok ()) :
    Sound (ofString s!"INSERT INTO {table} (" ++ join ", " (names.map ofString) ++
      ofString ")") := by
  have opens : Opens 0 (ofString "INSERT INTO ") := fun _ => rfl
  have blank : Separates (ofString " ") := .of (fun _ => rfl) fun _ => rfl
  have list : Sound (join ", " (names.map ofString)).parenthesize := by
    refine sound_list Expression.separates_comma fun sql mem => ?_
    obtain ⟨name, hname, rfl⟩ := List.mem_map.1 mem
    exact (isName_of_check (hn name hname)).sound
  have text : ofString s!"INSERT INTO {table} (" ++ join ", " (names.map ofString) ++
      ofString ")" = ofString ("INSERT INTO " ++ table) ++ ofString " " ++
        (join ", " (names.map ofString)).parenthesize := by
    have bracket : ofString " (" = ofString " " ++ ofString "(" := rfl
    simp only [toString, ofString_append, bracket, parenthesize, List.append_assoc]
  rw [text]
  exact (opened_name opens ht).between blank list

theorem insertInto_written {e : Entity} {properties : List Expression} (he : e.IsValid)
    (valid : ∀ x ∈ properties, ∀ p ∈ x.parts, p.IsValid (Numbered inOrder) registry)
    (hd : d.Written inOrder registry) (given : Gives (insertInto e properties) d u d') :
    d'.Written inOrder registry := by
  obtain ⟨_, d₁, expected, afterExpect⟩ := gives_bind.1 given
  obtain ⟨follows, rfl⟩ := expect_gives expected
  obtain ⟨_, d₂, permitted, afterCheck⟩ := gives_bind.1 afterExpect
  obtain rfl := checkTarget_gives permitted
  obtain ⟨_, d₃, target, afterTarget⟩ := gives_bind.1 afterCheck
  obtain ⟨_, d₄, checked, afterChecks⟩ := gives_bind.1 afterTarget
  have same : d₃ = d₄ := by
    refine keeps_forM (r := Eq) (fun x => ?_) _ checked
    exact Keeps.bind (fun _ _ _ given => (checkColumn_gives given).symm)
      fun _ => x.checkPermission_keeps .insert
  subst same
  split at afterChecks
  · simp only [gives_bind, gives_throw, false_and, exists_false] at afterChecks
  · obtain ⟨_, d₅, wrote, afterWrite⟩ := gives_bind.1 afterChecks
    obtain ⟨_, d₆, filled, moved⟩ := gives_bind.1 afterWrite
    obtain rfl := gives_modify.1 target
    obtain rfl := gives_modify.1 wrote
    obtain rfl := gives_modify.1 filled
    obtain rfl := gives_modify.1 moved
    have clause : d₂.clause = .start := by
      simpa [Clause.predecessors] using Clause.mem_of_mayFollow follows
    refine hd.start clause (by simp) (insertText_sound he.table ?_)
      ⟨rfl, rfl, rfl, rfl⟩ rfl rfl (.of .insert (by decide))
    intro name mem
    obtain ⟨x, hx, eq⟩ := List.mem_filterMap.1 mem
    obtain ⟨c, hc, rfl⟩ := Option.map_eq_some_iff.1 eq
    exact (insertList_valid he valid x hx c hc).column

theorem bindAll_adds {ι : Type} {column : ι → Option ColumnRef} {value : ι → SqlValue}
    {is : List ι} {list : List Sql} (hd : d.Orderly inOrder registry)
    (given : Gives (is.mapM fun i => bindValue (column i) (value i)) d list d') :
    d.Adds inOrder registry d' (list.map places).flatten ∧ (∀ sql ∈ list, Sound sql) ∧
      d.Appends d' := by
  have appends := keeps_mapM (fun i => bindValue_appends (column i) (value i)) _ given
  obtain ⟨added, good⟩ := mapM_adds hd (fun i _ d sql d' hd given => bindValue_adds hd given) given
  exact ⟨added, good, appends⟩

theorem appendRow_written {row : List SqlValue} (hd : d.Written inOrder registry)
    (closed : d.isOpen = false) (given : Gives (appendRow row) d u d') :
    d'.Written inOrder registry := by
  rw [appendRow, gives_get_bind] at given
  dsimp only at given
  split at given
  · simp only [gives_bind, gives_throw, false_and, exists_false] at given
  · obtain ⟨list, d₁, bound, afterList⟩ := gives_bind.1 given
    obtain ⟨_, d₂, wrote, moved⟩ := gives_bind.1 afterList
    obtain ⟨added, good, appends⟩ := bindAll_adds hd.orderly bound
    obtain rfl := gives_modify.1 wrote
    obtain rfl := gives_modify.1 moved
    have opens : Separates (ofString " VALUES ") := .of (fun _ => rfl) fun _ => rfl
    exact hd.continue closed appends (by simpa using added)
      ((separates_first opens Expression.separates_comma).sound
        (sound_list Expression.separates_comma good)) ⟨rfl, rfl, rfl, rfl⟩ rfl rfl
      (.of .values (by decide))

theorem valuesRow_written {row : List SqlValue} (hd : d.Written inOrder registry)
    (given : Gives (valuesRow row) d u d') : d'.Written inOrder registry := by
  obtain ⟨_, d₁, expected, appended⟩ := gives_bind.1 given
  obtain ⟨follows, rfl⟩ := expect_gives expected
  exact appendRow_written hd (hd.closed (Clause.isInside_of_mayFollow follows (by decide))) appended

theorem valuesRecord_written {record : Record} (hd : d.Written inOrder registry)
    (given : Gives (valuesRecord record) d u d') : d'.Written inOrder registry := by
  obtain ⟨_, d₁, expected, afterExpect⟩ := gives_bind.1 given
  obtain ⟨follows, rfl⟩ := expect_gives expected
  rw [gives_get_bind] at afterExpect
  obtain ⟨row, d₂, found, appended⟩ := gives_bind.1 afterExpect
  have same : d₁ = d₂ := keeps_mapM (r := Eq) (fun x => keeps_orFail _ _) _ found
  subst same
  exact appendRow_written hd (hd.closed (Clause.isInside_of_mayFollow follows (by decide))) appended

theorem beginWith_written {clause : Clause} {kind : StatementKind} {keyword : String} {e : Entity}
    (first : clause.predecessors = [.start]) (inside : clause.IsInside)
    (opens : Opens 0 (ofString keyword)) (he : e.IsValid) (hd : d.Written inOrder registry)
    (given : Gives (beginWith clause kind keyword e) d u d') : d'.Written inOrder registry := by
  obtain ⟨_, d₁, expected, afterExpect⟩ := gives_bind.1 given
  obtain ⟨follows, rfl⟩ := expect_gives expected
  obtain ⟨_, d₂, permitted, afterCheck⟩ := gives_bind.1 afterExpect
  obtain rfl := checkTarget_gives permitted
  obtain ⟨_, d₃, wrote, afterWrite⟩ := gives_bind.1 afterCheck
  obtain ⟨_, d₄, target, moved⟩ := gives_bind.1 afterWrite
  obtain rfl := gives_modify.1 wrote
  obtain rfl := gives_modify.1 target
  obtain rfl := gives_modify.1 moved
  have start : d₂.clause = .start := by
    simpa [first] using Clause.mem_of_mayFollow follows
  exact hd.start start (places_ofString _) (opened_name opens he.table) ⟨rfl, rfl, rfl, rfl⟩ rfl rfl
    inside

theorem opens_assignment {operation : UpdateOperation} {column : String}
    (valid : Identifier.check column = .ok ()) :
    Opens 0 (ofString (operation.assignment column)) := by
  have name := isName_of_check valid
  intro n
  have equals : Lexes (n, .word) (ofString " = ") (n, .gap) := rfl
  cases operation <;> simp only [UpdateOperation.assignment, UpdateOperation.symbol?, toString,
    ofString_append, List.append_assoc]
  case set => exact name.lexes.append equals
  all_goals
    refine name.lexes.append (equals.append (name.lexes.append ?_))
    rfl

theorem setColumn_written {x : Expression} {operation : UpdateOperation}
    (valid : ∀ p ∈ x.parts, p.IsValid (Numbered inOrder) registry) (hd : d.Written inOrder registry)
    (given : Gives (setColumn x operation) d u d') : d'.Written inOrder registry := by
  obtain ⟨_, d₁, expected, afterExpect⟩ := gives_bind.1 given
  obtain ⟨follows, rfl⟩ := expect_gives expected
  obtain ⟨_, d₂, checked, afterCheck⟩ := gives_bind.1 afterExpect
  obtain rfl := checkColumn_gives checked
  obtain ⟨_, d₃, permitted, afterPermission⟩ := gives_bind.1 afterCheck
  obtain rfl := Expression.checkPermission_gives permitted
  obtain ⟨column, d₄, found, afterColumn⟩ := gives_bind.1 afterPermission
  obtain ⟨value, d₅, bound, afterValue⟩ := gives_bind.1 afterColumn
  rw [gives_get_bind] at afterValue
  obtain ⟨_, d₆, wrote, moved⟩ := gives_bind.1 afterValue
  obtain ⟨column_eq, rfl⟩ := orFail_gives found
  obtain ⟨added, good⟩ := bindValue_adds hd.orderly bound
  have appends := bindValue_appends _ _ bound
  obtain rfl := gives_modify.1 wrote
  obtain rfl := gives_modify.1 moved
  have names : column.IsValid := valid _ (Expression.column_mem_parts column_eq)
  have opens : Separates (ofString " SET ") := .of (fun _ => rfl) fun _ => rfl
  have closed := hd.closed (Clause.isInside_of_mayFollow follows (by decide))
  refine hd.continue closed appends (by simpa using added) ?_ ⟨rfl, rfl, rfl, rfl⟩ rfl rfl
    (.of .set (by decide))
  rw [List.append_assoc]
  exact (separates_first opens Expression.separates_comma).sound
    ((opens_assignment names.column).sound good)

theorem unionWith_written {keyword : String} (separates : Separates (ofString keyword))
    (hd : d.Written inOrder registry) (given : Gives (unionWith keyword) d u d') :
    d'.Written inOrder registry := by
  obtain ⟨_, d₁, expected, afterExpect⟩ := gives_bind.1 given
  obtain ⟨follows, rfl⟩ := expect_gives expected
  obtain ⟨_, d₂, wrote, afterWrite⟩ := gives_bind.1 afterExpect
  obtain ⟨_, d₃, cleared, moved⟩ := gives_bind.1 afterWrite
  obtain rfl := gives_modify.1 wrote
  obtain rfl := gives_modify.1 cleared
  obtain rfl := gives_modify.1 moved
  have inside := Clause.isInside_of_mayFollow follows (by decide)
  have idle : d₁.listPending = false := by
    by_contra pending
    exact inside.listed (hd.pending (by simpa using pending))
  have nothing : d₁.Adds inOrder registry d₁ (ofString keyword).places := by
    simpa using hd.orderly.adds
  refine hd.extend nothing ⟨rfl, rfl, rfl, rfl⟩ rfl (by simp [idle]) ?_
  simp only [Draft.isOpen]
  exact (hd.sound (hd.closed inside)).opens separates

end Build

theorem Call.make_written (hc : NumbersCommands inOrder registry compile) {c : Call}
    (valid : c.IsValid (Numbered inOrder) registry) (hd : d.Written inOrder registry)
    (given : Gives (c.make compile) d u d') : d'.Written inOrder registry := by
  obtain ⟨expressions, entity⟩ := valid
  cases c with
  | select properties | selectDistinct properties | selectPropertiesLimit properties limit =>
    exact selectBlock_written hc expressions hd given
  | selectLimit limit => exact selectBlock_written hc (by simp) hd given
  | «from» e => exact fromEntity_written (entity e rfl) hd given
  | join kind e on => exact joinEntity_written hc expressions (entity e rfl) hd given
  | filter x => exact filterBy_written hc (expressions x List.mem_cons_self) hd given
  | groupBy properties => exact groupBy_written expressions hd given
  | having x => exact havingBy_written hc (expressions x List.mem_cons_self) hd given
  | orderBy properties => exact orderBy_written expressions hd given
  | insert e properties => exact insertInto_written (entity e rfl) expressions hd given
  | values row => exact valuesRow_written hd given
  | valuesRecord record => exact valuesRecord_written hd given
  | update e | delete e | truncate e =>
    refine beginWith_written ?_ ?_ ?_ (entity e rfl) hd given
    · rfl
    · exact .of _ (by decide)
    · exact fun _ => rfl
  | set x operation => exact setColumn_written (expressions x List.mem_cons_self) hd given
  | union | unionAll =>
    refine unionWith_written (.of ?_ ?_) hd given <;> exact fun _ => rfl
  | paginate page =>
    obtain rfl := gives_modify.1 given
    exact ⟨hd.orderly.congr ⟨rfl, rfl, rfl, rfl⟩, hd.fills, hd.pending, hd.text⟩

end DmlCompiler
