import DmlCompiler.Proofs.Build.Finishing
import DmlCompiler.Proofs.Build.Steps
import DmlCompiler.Proofs.Rendering.Calls

/-! # What queries and runs of calls write

A run of calls on an empty draft writes a statement, so that the command at its end is a numbered
one, and so are the commands of queries down to their sub-queries. -/
namespace DmlCompiler

open Build Sql

theorem continues_number {text : String} (separates : Separates (ofString text)) (n : Nat) :
    Continues (ofString (text ++ toString n)) := by
  rw [ofString_append]
  exact separates.sound (isName_toString n).sound

theorem separates_limit : Separates (ofString " LIMIT ") := .of (fun _ => rfl) fun _ => rfl

theorem separates_offset : Separates (ofString " OFFSET ") := .of (fun _ => rfl) fun _ => rfl

namespace Dialect

theorem rowLimit_continues (limit : UInt64) : Continues (ofString (rowLimit limit)) :=
  continues_number separates_limit limit.toNat

theorem fetchNext_continues (limit : Option UInt64) : Continues (ofString (fetchNext limit)) := by
  cases limit with
  | none => exact continues_nil
  | some limit =>
    have next : Separates (ofString " FETCH NEXT ") := .of (fun _ => rfl) fun _ => rfl
    have only : Continues (ofString " ROWS ONLY") := .of .word (fun _ => rfl) fun _ => rfl
    simp only [fetchNext, toString, ofString_append]
    exact (next.sound (isName_toString _).sound).append only

theorem offsetFetch_continues (page : Page) : Continues (ofString (offsetFetch page)) := by
  unfold offsetFetch
  split
  · exact continues_nil
  · have rows : Continues (ofString " ROWS") := .of .word (fun _ => rfl) fun _ => rfl
    simp only [toString, ofString_append]
    exact ((separates_offset.sound (isName_toString _).sound).append rows).append
      (fetchNext_continues page.limit)

theorem limitOffset_continues (fill : Option UInt64) (page : Page) :
    Continues (ofString (limitOffset fill page)) := by
  unfold limitOffset
  rw [ofString_append]
  refine Continues.append ?_ ?_
  · split
    · exact rowLimit_continues _
    · split
      · exact rowLimit_continues _
      · exact continues_nil
    · exact continues_nil
  · split
    · exact continues_number separates_offset _
    · exact continues_nil

theorem pageClause_continues (d : Dialect) (page : Page) :
    Continues (ofString (d.pageClause page)) := by
  cases d with
  | standard | sqlServer => exact offsetFetch_continues page
  | mySql => exact limitOffset_continues _ page
  | postgres => exact limitOffset_continues none page

end Dialect

namespace Draft

variable {inOrder : Prop} {registry : Registry} {d : Draft} {c : Command}

theorem limitText_continues (d : Draft) : Continues (ofString d.limitText) := by
  unfold limitText
  split
  · exact Dialect.rowLimit_continues _
  · exact continues_nil

theorem pageText_continues (d : Draft) : Continues (ofString d.pageText) := by
  unfold pageText
  split
  · dsimp only
    rw [ofString_append]
    refine Continues.append ?_ (Dialect.pageClause_continues _ _)
    split
    · exact .of .done (fun _ => rfl) fun _ => rfl
    · exact continues_nil
  · exact continues_nil

theorem isInside_of_isComplete {clause : Clause} (h : clause.isComplete = true) :
    clause.IsInside := by
  refine ⟨?_, ?_, ?_⟩ <;>
  · rintro rfl
    cases h

theorem Written.finished_text (hd : d.Written inOrder registry) (h : d.finished = .ok c) :
    Sound (d.sql ++ ofString d.limitText ++ ofString d.pageText) ∧
      Fills inOrder 0 d.parameters.length
        (d.sql ++ ofString d.limitText ++ ofString d.pageText).places := by
  obtain ⟨complete, _⟩ := finished_eq h
  have sound := hd.sound (hd.closed (isInside_of_isComplete complete))
  refine ⟨?_, by simpa using hd.fills⟩
  exact (sound.continue d.limitText_continues).continue d.pageText_continues

/-- The command of a written draft is a numbered one. -/
theorem Written.finished_isNumbered (hd : d.Written inOrder registry) (h : d.finished = .ok c) :
    c.IsNumbered inOrder d.dialect := by
  obtain ⟨sound, fills⟩ := hd.finished_text h
  obtain ⟨_, rfl⟩ := finished_eq h
  exact ⟨hd.orderly.names, _, rfl, sound, fills⟩

theorem Orderly.child_written (hd : d.Orderly inOrder registry) :
    d.child.Written inOrder registry where
  orderly := ⟨hd.registry, hd.dialect, rfl, hd.cache⟩
  fills := .empty
  pending pending := by cases pending
  text := fun _ => rfl

end Draft

variable {inOrder : Prop} {registry : Registry} {compile : Query → Build Command}
  {d d' : Draft} {u : Unit} {c : Command}

theorem RecordedCall.replay_written (hc : NumbersCommands inOrder registry compile)
    {record : RecordedCall} (valid : ∀ p ∈ record.parts, p.IsValid (Numbered inOrder) registry)
    (hd : d.Written inOrder registry) (given : Gives (record.replay compile) d u d') :
    d'.Written inOrder registry := by
  rw [RecordedCall.replay, gives_get_bind] at given
  split at given
  · next call eq =>
    obtain ⟨_, made⟩ := gives_guarded.1 given
    rw [hd.orderly.registry] at eq
    exact Call.make_written hc (call_isValid valid eq) hd made
  · exact (gives_throw.1 given).elim

theorem RecordedCall.replayAll_written (hc : NumbersCommands inOrder registry compile) :
    ∀ {records : List RecordedCall} {d d' : Draft},
      (∀ record ∈ records, ∀ p ∈ record.parts, p.IsValid (Numbered inOrder) registry) →
      d.Written inOrder registry → Gives (records.forM (·.replay compile)) d u d' →
      d'.Written inOrder registry
  | [], d, d', _, hd, given => by
    obtain ⟨_, rfl⟩ := gives_pure.1 given
    exact hd
  | record :: records, d, d', valid, hd, given => by
    obtain ⟨_, d₁, first, rest⟩ := gives_bind.1 given
    have written := replay_written hc (valid record List.mem_cons_self) hd first
    exact replayAll_written hc (fun r hr => valid r (List.mem_cons_of_mem record hr)) written rest

namespace Query

theorem replay_written (hc : NumbersCommands inOrder registry compile) {q : Query}
    (valid : ∀ p ∈ q.parts, p.IsValid (Numbered inOrder) registry) (hd : d.Written inOrder registry)
    (given : Gives (q.replay compile) d u d') : d'.Written inOrder registry := by
  obtain ⟨calls, page⟩ := q
  rw [parts, recordedParts_eq] at valid
  obtain ⟨_, d₁, paged, replayed⟩ := gives_bind.1 given
  have written : d₁.Written inOrder registry := by
    cases page with
    | none =>
      obtain ⟨_, rfl⟩ := gives_pure.1 paged
      exact hd
    | some page =>
      simp only [setPage] at paged
      obtain ⟨_, made⟩ := gives_guarded.1 paged
      have valid : Call.IsValid (Numbered inOrder) registry (.paginate page) :=
        ⟨by simp [Call.expressions], by simp [Call.entity?]⟩
      exact Call.make_written hc valid hd made
  exact RecordedCall.replayAll_written hc
    (fun record hr p hp => valid p (List.mem_flatMap.2 ⟨record, hr, hp⟩)) written replayed

theorem compileWithin_numbers (levels : Nat) :
    NumbersCommands inOrder registry (compileWithin levels) := by
  induction levels with
  | zero =>
    -- an empty draft is not complete
    intro q d c d' _ _ given
    obtain ⟨finished, _⟩ := finish_gives given
    cases finished
  | succ levels ih =>
    intro q d c d' valid hd given
    obtain ⟨_, d₁, replayed, finished⟩ := gives_bind.1 given
    have written := replay_written ih valid hd.child_written replayed
    obtain ⟨eq, rfl⟩ := finish_gives finished
    exact ⟨⟨_, written.finished_isNumbered eq⟩, written.orderly.cache⟩

theorem compile_numbers : NumbersCommands inOrder registry Query.compile := by
  intro q d c d' valid hd given
  rw [Query.compile] at given
  exact compileWithin_numbers _ valid hd given

/-- A query that is compiled finishes the draft. -/
theorem compile_gives {q : Query} (given : Gives q.compile d c d') : d'.finished = .ok c := by
  rw [compile_eq] at given
  obtain ⟨_, d₁, _, finished⟩ := gives_bind.1 given
  obtain ⟨eq, rfl⟩ := finish_gives finished
  exact eq

/-- A query with valid parts is written in full. -/
theorem compile_written {q : Query}
    (valid : ∀ p ∈ q.parts, p.IsValid (Numbered inOrder) registry) (hd : d.Written inOrder registry)
    (given : Gives q.compile d c d') : d'.Written inOrder registry := by
  rw [compile_eq] at given
  obtain ⟨_, d₁, replayed, finished⟩ := gives_bind.1 given
  obtain ⟨_, rfl⟩ := finish_gives finished
  exact replay_written compile_numbers valid hd replayed

end Query

namespace Draft

theorem new_written {dialect : Dialect} {options : Options} {cache : SelectCache}
    (ordered : inOrder → dialect ≠ .sqlServer) (lists : cache.IsValid) :
    (Draft.new dialect registry options cache).Written inOrder registry :=
  Orderly.child_written (d := .new dialect registry options cache) ⟨rfl, ordered, rfl, lists⟩

theorem Written.makeAll : ∀ {calls : List Call} {d d' : Draft},
    (∀ c ∈ calls, c.IsValid (Numbered inOrder) registry) → d.Written inOrder registry →
    Gives (Build.makeAll calls) d u d' → d'.Written inOrder registry
  | [], d, d', _, hd, given => by
    obtain ⟨_, rfl⟩ := gives_pure.1 given
    exact hd
  | c :: calls, d, d', valid, hd, given => by
    obtain ⟨_, d₁, first, rest⟩ := gives_bind.1 given
    obtain ⟨_, made⟩ := gives_guarded.1 first
    have written := Call.make_written Query.compile_numbers (valid c List.mem_cons_self) hd made
    exact makeAll (fun b hb => valid b (List.mem_cons_of_mem c hb)) written rest

end Draft
end DmlCompiler
