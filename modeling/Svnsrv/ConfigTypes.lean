import Svnsrv.Profile
import Svnsrv.RouterLoad

/-!
# Mistyped configuration

Both loaders look whether a key is present and then use its value as one of a
type. They end where every key that is present has that type.
-/

namespace Svnsrv.Profile

open CText Toml Router
set_option autoImplicit false

/-- The keys of the router document that are read have their types. -/
structure RouterTyped (g : Table) : Prop where
  address : Typed g (ascii "Host.address") Base.asString
  port : Typed g (ascii "Host.port") Base.asInt64
  content : ∀ ta, g.getTableArrayQualified (ascii "Host.Content") = some ta →
    ∀ t ∈ ta, Kept t → EntryTyped t

def stringKeys : List String :=
  ["Network.Address", "Network.Domain", "Logger.Access", "Logger.Error", "Daemon.PidFile",
    "Router.RangeFile"]

def integerKeys : List String :=
  ["Service.PoolSize", "Network.Port", "Network.Compression", "Network.Timeout"]

def booleanKeys : List String := ["Network.DomainFilter", "Network.Tunnel", "Daemon.CrashRestart"]

/-- The keys of the service profile have their types. -/
structure ProfileTyped (g : Table) : Prop where
  strings : ∀ key ∈ stringKeys, Typed g (ascii key) Base.asString
  integers : ∀ key ∈ integerKeys, Typed g (ascii key) Base.asInt64
  booleans : ∀ key ∈ booleanKeys, Typed g (ascii key) Base.asBool

theorem exists_initializeManager (self : RouterSeletor) (g : Table) :
    (∃ r, self.initializeManager (some g) = .ok r) ↔ RouterTyped g := by
  cases hcontent : g.getTableArrayQualified (ascii "Host.Content") with
  | none =>
    simp only [initializeManager_without hcontent]
    constructor
    · rintro ⟨r, d, p, hd, hp, -⟩
      refine ⟨exists_valueOr.mp ⟨d, hd⟩, exists_portOr.mp ⟨p, hp⟩, ?_⟩
      intro ta hta
      cases hcontent.symm.trans hta
    · rintro ⟨haddress, hport, -⟩
      obtain ⟨d, hd⟩ := exists_valueOr.mpr haddress
      obtain ⟨p, hp⟩ := exists_portOr.mpr hport
      exact ⟨_, d, p, hd, hp, rfl⟩
  | some ta =>
    simp only [initializeManager_with hcontent]
    constructor
    · rintro ⟨r, d, p, es, hd, hp, hes, -⟩
      refine ⟨exists_valueOr.mp ⟨d, hd⟩, exists_portOr.mp ⟨p, hp⟩, ?_⟩
      intro ta' hta
      obtain rfl := Option.some.inj (hcontent.symm.trans hta)
      exact (exists_loadContent ta).mp ⟨es, loadContent_eq_ok_iff.mpr hes⟩
    · rintro ⟨haddress, hport, hentries⟩
      obtain ⟨d, hd⟩ := exists_valueOr.mpr haddress
      obtain ⟨p, hp⟩ := exists_portOr.mpr hport
      obtain ⟨es, hes⟩ := (exists_loadContent ta).mpr (hentries ta hcontent)
      exact ⟨_, d, p, es, hd, hp, loadContent_eq_ok_iff.mp hes, rfl⟩

theorem exists_strings {g : Table} {key v : String} :
    (∃ x, strings g key v = .ok x) ↔ Typed g (ascii key) Base.asString := exists_valueOr

theorem exists_integer {g : Table} {key : String} {vi : Int32} :
    (∃ x, integer g key vi = .ok x) ↔ Typed g (ascii key) Base.asInt64 := by
  rw [integer, exists_valueOr, Typed, Typed]
  simp only [Base.asInt, Option.isSome_map]

theorem exists_boolean {g : Table} {key : String} {b : Bool} :
    (∃ x, boolean g key b = .ok x) ↔ Typed g (ascii key) Base.asBool := exists_valueOr

theorem exists_parseServiceProfile (g : Table) :
    (∃ r, parseServiceProfile (some g) = .ok r) ↔ ProfileTyped g := by
  simp only [parseServiceProfile, bind_eq_ok]
  constructor
  · rintro ⟨r, _, hpool, _, hport, _, hcompression, _, htimeout, _, haddress, _, hdomain,
      _, hfilter, _, htunnel, _, haccess, _, herror, _, hpid, _, hrestart, _, hrouter, -⟩
    refine ⟨?_, ?_, ?_⟩
    · simp only [stringKeys, List.forall_mem_cons, List.not_mem_nil, false_implies,
        implies_true, and_true]
      exact ⟨exists_strings.mp ⟨_, haddress⟩, exists_strings.mp ⟨_, hdomain⟩,
        exists_strings.mp ⟨_, haccess⟩, exists_strings.mp ⟨_, herror⟩,
        exists_strings.mp ⟨_, hpid⟩, exists_strings.mp ⟨_, hrouter⟩⟩
    · simp only [integerKeys, List.forall_mem_cons, List.not_mem_nil, false_implies,
        implies_true, and_true]
      exact ⟨exists_integer.mp ⟨_, hpool⟩, exists_integer.mp ⟨_, hport⟩,
        exists_integer.mp ⟨_, hcompression⟩, exists_integer.mp ⟨_, htimeout⟩⟩
    · simp only [booleanKeys, List.forall_mem_cons, List.not_mem_nil, false_implies,
        implies_true, and_true]
      exact ⟨exists_boolean.mp ⟨_, hfilter⟩, exists_boolean.mp ⟨_, htunnel⟩,
        exists_boolean.mp ⟨_, hrestart⟩⟩
  · rintro ⟨hstrings, hintegers, hbooleans⟩
    have hstring : ∀ key ∈ stringKeys, ∀ v, ∃ x, strings g key v = .ok x :=
      fun key hkey v => exists_strings.mpr (hstrings key hkey)
    have hinteger : ∀ key ∈ integerKeys, ∀ vi, ∃ x, integer g key vi = .ok x :=
      fun key hkey vi => exists_integer.mpr (hintegers key hkey)
    have hboolean : ∀ key ∈ booleanKeys, ∀ b, ∃ x, boolean g key b = .ok x :=
      fun key hkey b => exists_boolean.mpr (hbooleans key hkey)
    obtain ⟨_, hpool⟩ := hinteger "Service.PoolSize" (by decide) 64
    obtain ⟨_, hport⟩ := hinteger "Network.Port" (by decide) 3690
    obtain ⟨_, hcompression⟩ := hinteger "Network.Compression" (by decide) 0
    obtain ⟨_, htimeout⟩ := hinteger "Network.Timeout" (by decide) timeoutInfinite
    obtain ⟨_, haddress⟩ := hstring "Network.Address" (by decide) "127.0.0.1"
    obtain ⟨_, hdomain⟩ := hstring "Network.Domain" (by decide) "git.oschina.net"
    obtain ⟨_, hfilter⟩ := hboolean "Network.DomainFilter" (by decide) false
    obtain ⟨_, htunnel⟩ := hboolean "Network.Tunnel" (by decide) false
    obtain ⟨_, haccess⟩ := hstring "Logger.Access" (by decide) "/tmp/svnsrv.access.log"
    obtain ⟨_, herror⟩ := hstring "Logger.Error" (by decide) "/tmp/svnsrv.error.log"
    obtain ⟨_, hpid⟩ := hstring "Daemon.PidFile" (by decide) "/tmp/svnsrv.pid"
    obtain ⟨_, hrestart⟩ := hboolean "Daemon.CrashRestart" (by decide) true
    obtain ⟨_, hrouter⟩ := hstring "Router.RangeFile" (by decide) "router.toml"
    exact ⟨_, _, hpool, _, hport, _, hcompression, _, htimeout, _, haddress, _, hdomain,
      _, hfilter, _, htunnel, _, haccess, _, herror, _, hpid, _, hrestart, _, hrouter, rfl⟩

/-- Each of the loaders ends, with true or false, where the keys that it reads have their types. -/
theorem loaders_end_iff_typed (self : RouterSeletor) (g : Table) :
    ((∃ r, self.initializeManager (some g) = .ok r) ↔ RouterTyped g) ∧
      ((∃ r, parseServiceProfile (some g) = .ok r) ↔ ProfileTyped g) :=
  ⟨exists_initializeManager self g, exists_parseServiceProfile g⟩

/-- A port in quotes. -/
def quotedPort (part key : String) : Table :=
  [(ascii part, .table [(ascii key, .string (ascii "3690"))])]

theorem quoted_port_dereferenced :
    RouterSeletor.empty.initializeManager (some (quotedPort "Host" "port")) =
        .error .nullDereference ∧
      parseServiceProfile (some (quotedPort "Network" "Port")) = .error .nullDereference :=
  ⟨rfl, rfl⟩

end Svnsrv.Profile
