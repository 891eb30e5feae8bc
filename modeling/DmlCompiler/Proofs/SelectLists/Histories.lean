import DmlCompiler.Proofs.SelectLists.Calls

/-! # Histories of compilations

Select lists are kept from one compilation to the next. What holds of the kept lists at the
beginning, and still holds where a list has been asked for, holds behind every history, also behind
compilations that failed. -/
namespace DmlCompiler

open Build

variable {known : Entity → Prop} {registry : Registry}

/-- What is compiled: calls on an empty draft, or a recorded query. -/
inductive Work where
  | build (calls : List Call)
  | query (q : Query)

namespace Work

def run : Work → Build Command
  | .build calls => do
    Build.makeAll calls
    Build.finish
  | .query q => q.compile

/-- Its calls, also the recorded ones, are about entities that are known. -/
def Concerns (known : Entity → Prop) (registry : Registry) : Work → Prop
  | .build calls => ∀ call ∈ calls, call.Concerns known registry
  | .query q => ∀ p ∈ q.parts, p.Resolves known registry

theorem run_exchanges {o o' : Options} {X : Exchange (Entity.Lists known) o o'} {work : Work}
    (concerns : work.Concerns known registry) : Exchanges X registry work.run := by
  cases work with
  | build calls =>
    have finishing : Program registry Query.compile (Entity.Lists known) (fun _ => False) finish :=
      finish_program
    exact (makeAll_exchanges concerns).bind fun _ => finishing.exchanges nofun
  | query q => exact q.compile_exchanges concerns

end Work

structure Compilation where
  dialect : Dialect
  registry : Registry
  options : Options
  work : Work

namespace Compilation

def run (c : Compilation) (cache : SelectCache) : Except QueryError Command × Draft :=
  c.work.run.run (.new c.dialect c.registry c.options cache)

def result (c : Compilation) (cache : SelectCache) : Except QueryError Command := (c.run cache).1

/-- The lists that are kept afterwards, also where it fails. -/
def kept (c : Compilation) (cache : SelectCache) : SelectCache := (c.run cache).2.cache

def Concerns (known : Entity → Prop) (c : Compilation) : Prop := c.work.Concerns known c.registry

def calls? (c : Compilation) : Except QueryError (List Call) :=
  match c.work with
  | .build calls => .ok calls
  | .query q => q.calls? c.dialect c.registry

def draft (c : Compilation) (cache : SelectCache) : Draft :=
  .new c.dialect c.registry c.options cache

theorem concerns_of_calls? {c : Compilation} {calls : List Call} (concerns : c.Concerns known)
    (read : c.calls? = .ok calls) : ∀ call ∈ calls, call.Concerns known c.registry := by
  obtain ⟨dialect, registry, options, work⟩ := c
  cases work with
  | build calls =>
    cases read
    exact concerns
  | query q => exact q.concerns_of_calls? concerns read

theorem result_eq_ok {c : Compilation} {cache : SelectCache} {command : Command} :
    c.result cache = .ok command ↔
      ∃ calls, c.calls? = .ok calls ∧ ((c.draft cache).build calls).1 = .ok command := by
  obtain ⟨dialect, registry, options, work⟩ := c
  cases work with
  | build calls =>
    constructor
    · exact fun built => ⟨calls, rfl, built⟩
    · rintro ⟨_, read, built⟩
      cases read
      exact built
  | query q =>
    have here : (Draft.new dialect registry options cache).IsFor dialect registry := ⟨rfl, rfl⟩
    have compiled : result ⟨dialect, registry, options, .query q⟩ cache = .ok command ↔
        ∃ d, Gives (do q.replay Query.compile; finish) (.new dialect registry options cache)
          command d := by
      rw [← Query.compile_eq]
      exact ⟨fun built => ⟨_, Prod.ext built rfl⟩, fun ⟨_, given⟩ => congrArg Prod.fst given⟩
    rw [compiled]
    constructor
    · rintro ⟨_, given⟩
      obtain ⟨_, d, replayed, finished⟩ := gives_bind.1 given
      obtain ⟨calls, read, made⟩ := Query.replay_gives here replayed
      exact ⟨calls, read, congrArg Prod.fst (gives_bind.2 ⟨(), d, made, finished⟩)⟩
    · rintro ⟨calls, read, built⟩
      have given : Gives (do makeAll calls; finish) (.new dialect registry options cache) command
          _ := Prod.ext built rfl
      obtain ⟨_, d, made, finished⟩ := gives_bind.1 given
      exact ⟨_, gives_bind.2 ⟨(), d, Query.gives_replay here read made, finished⟩⟩

/-- With other options and kept lists that fit it does the same, and leaves lists that fit. -/
theorem exchanged {c : Compilation} {o : Options} (X : Exchange (Entity.Lists known) c.options o)
    (concerns : c.Concerns known) {cache cache' : SelectCache} (fits : X.fits cache cache') :
    { c with options := o }.result cache' = c.result cache ∧
      X.fits (c.kept cache) ({ c with options := o }.kept cache') := by
  have beside : X.Beside c.registry (c.draft cache) ({ c with options := o }.draft cache') :=
    ⟨rfl, rfl, cache', rfl, fits⟩
  obtain ⟨outcome, d, e, run, run', beside'⟩ := Work.run_exchanges concerns beside
  obtain ⟨k, rfl, fits'⟩ := beside'.exchanged
  have kept : c.kept cache = d.cache := congrArg (·.2.cache) run
  have kept' : { c with options := o }.kept cache' = k := congrArg (·.2.cache) run'
  exact ⟨(congrArg Prod.fst run').trans (congrArg Prod.fst run).symm, by rwa [kept, kept']⟩

end Compilation

/-- The lists that are kept behind all of these compilations. -/
def keptAfter (history : List Compilation) : SelectCache :=
  history.foldl (fun cache c => c.kept cache) []

def Exchange.holding {lists : Entity → Prop} (o : Options) {holds : SelectCache → Prop}
    (fetched : ∀ {k e}, lists e → holds k → holds (k.fetch e).2) : Exchange lists o o :=
  .ofFetch o (fun k k' => k' = k ∧ holds k)
    (by
      rintro k _ e - ⟨rfl, -⟩
      rfl)
    (by
      rintro k _ e asked ⟨rfl, h⟩
      exact ⟨rfl, fetched asked h⟩)

section Holding

variable {holds : SelectCache → Prop}
  (fetched : ∀ {k e}, e.Lists known → holds k → holds (k.fetch e).2)
include fetched

theorem Build.makeAll_holds {calls : List Call} {d : Draft}
    (concern : ∀ call ∈ calls, call.Concerns known d.registry) (h : holds d.cache) :
    holds ((makeAll calls).run d).2.cache := by
  have beside : (Exchange.holding d.options fetched).Beside d.registry d d :=
    ⟨rfl, rfl, d.cache, rfl, rfl, h⟩
  obtain ⟨_, d', _, run, -, beside'⟩ := makeAll_exchanges concern beside
  obtain ⟨_, -, -, h'⟩ := beside'.exchanged
  rwa [run]

theorem Compilation.kept_holds {c : Compilation} (concerns : c.Concerns known)
    {cache : SelectCache} (h : holds cache) : holds (c.kept cache) :=
  (c.exchanged (.holding c.options fetched) concerns ⟨rfl, h⟩).2.2

theorem keptAfter_holds {history : List Compilation} (concern : ∀ c ∈ history, c.Concerns known)
    (empty : holds []) : holds (keptAfter history) := by
  have general : ∀ (history : List Compilation) (cache : SelectCache),
      (∀ c ∈ history, c.Concerns known) → holds cache →
      holds (history.foldl (fun cache c => c.kept cache) cache) := by
    intro history
    induction history with
    | nil => exact fun _ _ h => h
    | cons c history ih =>
      intro cache concern h
      have step := Compilation.kept_holds fetched (concern c List.mem_cons_self) h
      exact ih _ (fun c hc => concern c (List.mem_cons_of_mem _ hc)) step
  exact general history [] concern empty

end Holding

/-- What is kept where lists were asked for one after the other, by a history of compilations or by
runs that have not come to their ends. -/
inductive SelectCache.IsAsked (known : Entity → Prop) : SelectCache → Prop where
  | none : IsAsked known []
  | fetch {cache : SelectCache} {e : Entity} (before : cache.IsAsked known)
      (asked : e.Lists known) : IsAsked known (cache.fetch e).2

theorem keptAfter_isAsked {history : List Compilation} (past : ∀ c ∈ history, c.Concerns known) :
    (keptAfter history).IsAsked known :=
  keptAfter_holds (fun asked before => .fetch before asked) past .none

end DmlCompiler
