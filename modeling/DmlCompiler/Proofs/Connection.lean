import DmlCompiler.Proofs.Digits
import DmlCompiler.Proofs.Results
import DmlCompiler.Settings

/-! # Connection strings

User name, password, host, port and database stand in a row in a connection string, with nothing to
tell a separator from the same character inside a component. A connection can be told from its text
if no component has a separator at which it could be cut, and only then: wherever one of them can be
cut, other settings that are just as valid have the same text. -/
namespace DmlCompiler

structure Connection where
  username : String
  password : String
  host : String
  port : UInt16
  database : String
deriving DecidableEq, Repr

namespace Connection

def address (host : List Char) (port : UInt16) (database : List Char) : List Char :=
  host ++ ':' :: (Nat.toDigits 10 port.toNat ++ '/' :: database)

def chars (c : Connection) : List Char :=
  c.username.toList ++ ':' :: (c.password.toList ++
    '@' :: address c.host.toList c.port c.database.toList)

structure IsComplete (c : Connection) : Prop where
  username : c.username.toList ≠ []
  host : c.host.toList ≠ []
  port : c.port ≠ 0
  database : c.database.toList ≠ []

/-- No component can be cut at one of the separators. A colon that the user name begins with, an at
sign at the end of the host and a port at the very edge do no harm, as an empty component would be
left beside them. -/
structure Separable (c : Connection) : Prop where
  username : ':' ∉ c.username.toList.tail
  password : ':' ∉ c.password.toList ∧ '@' ∉ c.password.toList
  hostSign : '@' ∉ c.host.toList.dropLast
  hostPort : ∀ before port after, port ≠ 0 → c.host.toList = address before port after → before = []
  database : ∀ before port after, port ≠ 0 → c.database.toList = address before port after →
    after = []

variable {a b c d : List Char} {x y : Char}

/-- A text that is cut twice is cut at one place, or the one cut stands before the other. -/
theorem cut_cases (same : a ++ x :: b = c ++ y :: d) :
    (a = c ∧ x = y ∧ b = d) ∨ (∃ between, c = a ++ x :: between ∧ b = between ++ y :: d) ∨
      ∃ between, a = c ++ y :: between ∧ d = between ++ x :: b := by
  rcases List.append_eq_append_iff.1 same with ⟨between, hc, hb⟩ | ⟨between, ha, hd⟩
  · cases between with
    | nil => simp_all
    | cons z between =>
      obtain ⟨rfl, rfl⟩ := List.cons.inj hb
      exact .inr (.inl ⟨between, hc, rfl⟩)
  · cases between with
    | nil => simp_all
    | cons z between =>
      obtain ⟨rfl, rfl⟩ := List.cons.inj hd
      exact .inr (.inr ⟨between, ha, rfl⟩)

theorem not_mem_digits (port : UInt16) (h : Text.isDigit x = false) :
    x ∉ Nat.toDigits 10 port.toNat := by
  intro mem
  rw [Text.isDigit_of_toDigits mem] at h
  cases h

/-- The digits of a port end where no digit follows. -/
theorem port_cut {p q : UInt16} (hx : Text.isDigit x = false)
    (same : Nat.toDigits 10 p.toNat ++ x :: b = Nat.toDigits 10 q.toNat ++ x :: d) :
    p = q ∧ b = d := by
  rcases cut_cases same with ⟨digits, -, rfl⟩ | ⟨between, digits, -⟩ | ⟨between, digits, -⟩
  · refine ⟨?_, rfl⟩
    rw [← UInt16.toNat_inj, ← Text.digitsValue_toDigits p.toNat, digits, Text.digitsValue_toDigits]
  · exact absurd (by simp [digits]) (not_mem_digits q hx)
  · exact absurd (by simp [digits]) (not_mem_digits p hx)

/-- Host and database that no port cuts are told from the text that they stand in. -/
theorem address_cut {host database before after : List Char} {p q : UInt16} (hq : q ≠ 0)
    (uncutHost : ∀ before port after, port ≠ 0 → host = address before port after → before = [])
    (uncutDatabase : ∀ before port after, port ≠ 0 → database = address before port after →
      after = [])
    (some : before ≠ []) (more : after ≠ [])
    (same : address host p database = address before q after) :
    host = before ∧ p = q ∧ database = after := by
  have colon (port : UInt16) : ':' ∉ Nat.toDigits 10 port.toNat := not_mem_digits port rfl
  rcases cut_cases same with ⟨rfl, -, rest⟩ | ⟨between, rfl, rest⟩ | ⟨between, rfl, rest⟩
  · exact ⟨rfl, port_cut rfl rest⟩
  · -- the other port would stand in the database
    rcases cut_cases rest with ⟨-, wrong, -⟩ | ⟨inner, -, port⟩ | ⟨inner, digits, -⟩
    · cases wrong
    · exact absurd (uncutDatabase inner q after hq port) more
    · exact absurd (by simp [digits]) (colon p)
  · -- the other port would stand in the host
    rcases cut_cases rest with ⟨-, wrong, -⟩ | ⟨inner, rfl, -⟩ | ⟨inner, digits, -⟩
    · cases wrong
    · exact absurd (uncutHost before q inner hq rfl) some
    · exact absurd (by simp [digits]) (colon q)

/-- A user name and a password that no colon cuts are told from the text that they stand in. -/
theorem credentials_cut {username password before after : List Char}
    (uncutName : ':' ∉ username.tail) (uncutPassword : ':' ∉ password) (some : before ≠ [])
    (same : username ++ ':' :: password = before ++ ':' :: after) :
    username = before ∧ password = after := by
  rcases cut_cases same with ⟨rfl, -, rfl⟩ | ⟨between, rfl, rfl⟩ | ⟨between, rfl, rfl⟩
  · exact ⟨rfl, rfl⟩
  · simp at uncutPassword
  · cases before with
    | nil => exact absurd rfl some
    | cons z before => simp at uncutName

theorem eq_of_chars {c e : Connection} (hc : c.Separable) (he : e.IsComplete)
    (same : e.chars = c.chars) : e = c := by
  have split (c : Connection) : c.chars = (c.username.toList ++ ':' :: c.password.toList) ++
      '@' :: address c.host.toList c.port c.database.toList := by simp [chars]
  rw [split, split] at same
  have name {after : List Char} (h : c.username.toList ++ ':' :: c.password.toList =
      e.username.toList ++ ':' :: after) : c.username.toList = e.username.toList ∧
      c.password.toList = after :=
    credentials_cut hc.username hc.password.1 he.username h
  have place {host : List Char} (some : host ≠ [])
      (h : address c.host.toList c.port c.database.toList = address host e.port e.database.toList) :
      c.host.toList = host ∧ c.port = e.port ∧ c.database.toList = e.database.toList :=
    address_cut he.port hc.hostPort hc.database some he.database h
  rcases cut_cases same.symm with ⟨credentials, -, rest⟩ | ⟨between, -, rest⟩ | ⟨between, front, -⟩
  · obtain ⟨username, password⟩ := name credentials
    obtain ⟨host, port, database⟩ := place he.host rest
    rw [String.toList_inj] at username password host database
    cases c
    cases e
    simp_all
  · -- the at sign would stand in the host
    have host : address c.host.toList c.port c.database.toList =
        address (between ++ '@' :: e.host.toList) e.port e.database.toList := by
      rw [rest, address, address, List.append_assoc, List.cons_append]
    obtain ⟨cut, -⟩ := place (by simp) host
    have sign := hc.hostSign
    rw [cut, List.dropLast_append_of_ne_nil (by simp), List.dropLast_cons_of_ne_nil he.host] at sign
    simp at sign
  · -- the at sign would stand in the password
    rw [List.append_assoc, List.cons_append] at front
    have sign := hc.password.2
    rw [(name front).2] at sign
    simp at sign

/-- No other connection has the text. -/
def IsDetermined (c : Connection) : Prop :=
  ∀ e : Connection, e.IsComplete → e.chars = c.chars → e = c

namespace IsDetermined

variable {c : Connection} (determined : c.IsDetermined) (hc : c.IsComplete)
include determined

theorem parts (username password host : List Char) (port : UInt16) (database : List Char)
    (complete : username ≠ [] ∧ host ≠ [] ∧ port ≠ 0 ∧ database ≠ [])
    (same : username ++ ':' :: (password ++ '@' :: address host port database) = c.chars) :
    c.username.toList = username ∧ c.password.toList = password ∧ c.host.toList = host := by
  let e : Connection := ⟨.ofList username, .ofList password, .ofList host, port, .ofList database⟩
  obtain ⟨name, named, ported, more⟩ := complete
  have eq := determined e ⟨by simpa [e], by simpa [e], ported, by simpa [e]⟩ (by simpa [e, chars])
  simp [← eq, e]

include hc

theorem username : ':' ∉ c.username.toList.tail := by
  intro colon
  obtain ⟨front, back, tail⟩ := List.append_of_mem colon
  obtain ⟨first, rest, name⟩ := List.exists_cons_of_ne_nil hc.username
  obtain rfl : rest = front ++ ':' :: back := by rw [← tail, name, List.tail_cons]
  have cut := determined.parts (first :: front) (back ++ ':' :: c.password.toList) c.host.toList
    c.port c.database.toList ⟨by simp, hc.host, hc.port, hc.database⟩ (by simp [chars, name])
  simp [name] at cut

theorem password : ':' ∉ c.password.toList ∧ '@' ∉ c.password.toList := by
  constructor
  · intro colon
    obtain ⟨front, back, eq⟩ := List.append_of_mem colon
    have cut := determined.parts (c.username.toList ++ ':' :: front) back c.host.toList c.port
      c.database.toList ⟨by simp, hc.host, hc.port, hc.database⟩ (by simp [chars, eq])
    simp at cut
  · intro sign
    obtain ⟨front, back, eq⟩ := List.append_of_mem sign
    have cut := determined.parts c.username.toList front (back ++ '@' :: c.host.toList) c.port
      c.database.toList ⟨hc.username, by simp, hc.port, hc.database⟩
      (by simp [chars, address, eq])
    simp [eq] at cut

theorem hostSign : '@' ∉ c.host.toList.dropLast := by
  intro sign
  obtain ⟨front, back, eq⟩ := List.append_of_mem sign
  obtain ⟨last, host⟩ : ∃ last, c.host.toList = front ++ '@' :: (back ++ [last]) := by
    refine ⟨c.host.toList.getLast hc.host, ?_⟩
    rw [← List.cons_append, ← List.append_assoc, ← eq, List.dropLast_concat_getLast]
  have cut := determined.parts c.username.toList (c.password.toList ++ '@' :: front)
    (back ++ [last]) c.port c.database.toList ⟨hc.username, by simp, hc.port, hc.database⟩
    (by simp [chars, address, host])
  simp at cut

theorem hostPort (before : List Char) (port : UInt16) (after : List Char) (ported : port ≠ 0)
    (host : c.host.toList = address before port after) : before = [] := by
  by_contra some
  have cut := determined.parts c.username.toList c.password.toList before port
    (after ++ ':' :: (Nat.toDigits 10 c.port.toNat ++ '/' :: c.database.toList))
    ⟨hc.username, some, ported, by simp⟩ (by simp [chars, host, address])
  simp [host, address] at cut

theorem database (before : List Char) (port : UInt16) (after : List Char) (ported : port ≠ 0)
    (database : c.database.toList = address before port after) : after = [] := by
  by_contra some
  have cut := determined.parts c.username.toList c.password.toList
    (c.host.toList ++ ':' :: (Nat.toDigits 10 c.port.toNat ++ '/' :: before)) port after
    ⟨hc.username, by simp, ported, some⟩ (by simp [chars, database, address])
  simp at cut

end IsDetermined

/-- The text tells the connection exactly if no component can be cut. -/
theorem isDetermined_iff {c : Connection} (hc : c.IsComplete) : c.IsDetermined ↔ c.Separable := by
  constructor
  · intro determined
    exact ⟨determined.username hc, determined.password hc, determined.hostSign hc,
      determined.hostPort hc, determined.database hc⟩
  · intro separable e complete same
    exact eq_of_chars separable complete same

/-- Where no slash stands, no port cuts. -/
theorem Separable.of_slashes {c : Connection} (username : ':' ∉ c.username.toList.tail)
    (password : ':' ∉ c.password.toList ∧ '@' ∉ c.password.toList)
    (hostSign : '@' ∉ c.host.toList.dropLast) (host : '/' ∉ c.host.toList)
    (database : '/' ∉ c.database.toList.dropLast) : c.Separable := by
  refine ⟨username, password, hostSign, ?_, ?_⟩
  · intro before port after _ eq
    simp [eq, address] at host
  · intro before port after _ eq
    by_contra some
    rw [eq, address, List.dropLast_append_of_ne_nil (by simp),
      List.dropLast_cons_of_ne_nil (by simp), List.dropLast_append_of_ne_nil (by simp),
      List.dropLast_cons_of_ne_nil some] at database
    simp at database

end Connection

namespace DatabaseSettings

variable {s t : DatabaseSettings}

def connection (s : DatabaseSettings) : Connection :=
  ⟨s.username, s.password, s.host, s.port, s.database⟩

def connectedBy (s : DatabaseSettings) (c : Connection) : DatabaseSettings :=
  { s with
    username := c.username
    password := c.password
    host := c.host
    port := c.port
    database := c.database }

theorem connectionString_toList (s : DatabaseSettings) :
    s.connectionString.toList = "postgresql://".toList ++ s.connection.chars := by
  have text (part : String) : toString part = part := rfl
  have digits (n : Nat) : (toString n).toList = Nat.toDigits 10 n := Nat.toList_repr
  unfold connectionString
  simp only [String.toList_append, text, digits, List.append_assoc]
  unfold connection Connection.chars Connection.address
  generalize Nat.toDigits 10 s.port.toNat = port
  rfl

theorem connectionString_inj :
    s.connectionString = t.connectionString ↔ s.connection.chars = t.connection.chars := by
  rw [← String.toList_inj, connectionString_toList, connectionString_toList,
    List.append_cancel_left_eq]

theorem validate_eq_ok : s.validate = .ok () ↔ s.connection.IsComplete ∧
    s.minConnections ≠ 0 ∧ s.maxConnections ≠ 0 ∧ s.minConnections ≤ s.maxConnections ∧
    s.connectionTimeoutSeconds ≠ 0 := by
  have complete : s.connection.IsComplete ↔
      s.host ≠ "" ∧ s.port ≠ 0 ∧ s.database ≠ "" ∧ s.username ≠ "" := by
    constructor
    · rintro ⟨username, host, port, database⟩
      simp_all [connection]
    · rintro ⟨host, port, database, username⟩
      constructor <;> simpa [connection]
  rw [complete]
  simp [validate, bind_eq_ok, and_assoc]

theorem validate_connectedBy {c : Connection} (valid : s.validate = .ok ()) (hc : c.IsComplete) :
    (s.connectedBy c).validate = .ok () :=
  validate_eq_ok.2 ⟨hc, (validate_eq_ok.1 valid).2⟩

/-- Valid settings have a connection string that no valid settings of another connection have if
their components cannot be cut at a separator, and only then. -/
theorem connection_told_iff_separable (valid : s.validate = .ok ()) :
    (∀ t : DatabaseSettings, t.validate = .ok () → t.connection ≠ s.connection →
      t.connectionString ≠ s.connectionString) ↔ s.connection.Separable := by
  rw [← Connection.isDetermined_iff (validate_eq_ok.1 valid).1]
  constructor
  · intro told c complete same
    by_contra other
    exact told (s.connectedBy c) (validate_connectedBy valid complete) other
      (connectionString_inj.2 same)
  · intro determined t valid other same
    exact other (determined t.connection (validate_eq_ok.1 valid).1 (connectionString_inj.1 same))

def ofShop (c : Connection) : DatabaseSettings :=
  ⟨c.host, c.port, c.database, c.username, c.password, 1, 5, 30, 600, 3600⟩

/-- Separators in harmless places. -/
theorem connection_told_iff_separable_harmless :
    let c : Connection := ⟨":clerk@till", "a/b?c", "[fe80::1]", 5432, "shop:1/"⟩
    (ofShop c).validate = .ok () ∧
      ∀ t : DatabaseSettings, t.validate = .ok () → t.connection ≠ c →
        t.connectionString ≠ "postgresql://:clerk@till:a/b?c@[fe80::1]:5432/shop:1/" := by
  intro c
  have valid : (ofShop c).validate = .ok () := by decide +kernel
  have text : (ofShop c).connectionString =
      "postgresql://:clerk@till:a/b?c@[fe80::1]:5432/shop:1/" := by decide +kernel
  have separable : c.Separable :=
    .of_slashes (by decide) (by decide) (by decide) (by decide) (by decide)
  rw [← text]
  exact ⟨valid, (connection_told_iff_separable valid).2 separable⟩

/-- A colon in the user name and one in the password give the same text. -/
theorem username_runs_into_password :
    let c : Connection := ⟨"a:b", "c", "localhost", 5432, "shop"⟩
    let e : Connection := ⟨"a", "b:c", "localhost", 5432, "shop"⟩
    (ofShop c).validate = .ok () ∧ (ofShop e).validate = .ok () ∧
      (ofShop c).username ≠ (ofShop e).username ∧ (ofShop c).password ≠ (ofShop e).password ∧
      (ofShop c).connectionString = (ofShop e).connectionString := by
  decide +kernel

end DatabaseSettings
end DmlCompiler
