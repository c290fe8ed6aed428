import Svnsrv.ConfigTypes
import Svnsrv.RouterOrder

/-!
# Configured numbers

How far the integers of the two documents come: the number of threads, the port
listened on and the ports that owners are sent to. Each has its own chain of
narrowing conversions.
-/

namespace Svnsrv.Profile

open CText Toml Router RangeTable
set_option autoImplicit false

/-- The number is one of 16 bits. -/
def IsPort (v : Int64) : Prop := 0 ≤ v.toInt ∧ v.toInt < 2 ^ 16

/-- The socket library takes the listening address for none. -/
def AddressRefused {Address : Type} (fromString : Bytes → Option Address) (g : Table) : Prop :=
  ∃ address, strings g "Network.Address" "127.0.0.1" = .ok address ∧ fromString address = none

/-- The pool size of the profile is a multiple of 2^32, which the constructor takes for zero. -/
def PoolEmpty (g : Table) : Prop :=
  ∃ v, g.getQualified (ascii "Service.PoolSize") = some (.int64 v) ∧ v.toInt % 2 ^ 32 = 0

/-! ## Narrowing -/

theorem toNat_toUInt32 (v : Int64) : (v.toInt32.toUInt32.toNat : Int) = v.toInt % 2 ^ 32 := by
  have hlow : v.toInt32.toUInt32.toNat = v.toBitVec.toNat % 2 ^ 32 := by
    change v.toInt32.toBitVec.toNat = _
    rw [Int64.toBitVec_toInt32, BitVec.signExtend_eq_setWidth_of_le _ (by decide),
      BitVec.toNat_setWidth]
  have hint : v.toInt = if 2 * v.toBitVec.toNat < 2 ^ 64 then (v.toBitVec.toNat : Int)
      else v.toBitVec.toNat - 2 ^ 64 := BitVec.toInt_eq_toNat_cond v.toBitVec
  rw [hlow, hint]
  split <;> omega

theorem toNat_toUInt16 (v : Int64) :
    (v.toInt32.toUInt32.toUInt16.toNat : Int) = v.toInt % 2 ^ 16 := by
  have hmod : v.toInt32.toUInt32.toUInt16.toNat = v.toInt32.toUInt32.toNat % 2 ^ 16 :=
    UInt32.toNat_toUInt16 _
  have h32 := toNat_toUInt32 v
  omega

theorem port_kept_iff (v : Int64) : ((UInt16.ofInt v.toInt).toNat : Int) = v.toInt ↔ IsPort v := by
  rw [UInt16.ofInt, UInt16.toNat_ofNat', IsPort]
  omega

section Server

variable {g : Table} {na : NetworkServerArgs} {la : LauncherArgs}

/-- The numbers and the address of the profile in the arguments. -/
theorem parsed_args (h : parseServiceProfile (some g) = .ok (some (na, la))) :
    (∃ poolSize, integer g "Service.PoolSize" 64 = .ok poolSize ∧ na.poolSize = poolSize.toUInt32) ∧
    (∃ port, integer g "Network.Port" 3690 = .ok port ∧ na.port = port.toUInt32) ∧
      strings g "Network.Address" "127.0.0.1" = .ok na.address := by
  simp only [parseServiceProfile, bind_eq_ok] at h
  obtain ⟨poolSize, hpool, port, hport, _, -, _, -, address, haddress, _, -, _, -, _, -, _, -,
    _, -, _, -, _, -, _, -, hr⟩ := h
  obtain ⟨rfl, rfl⟩ := Prod.mk.inj (Option.some.inj (Except.ok.inj hr))
  exact ⟨⟨poolSize, hpool, rfl⟩, ⟨port, hport, rfl⟩, haddress⟩

theorem asInt_eq_some {w : Base} {n : Int32} (h : Base.asInt w = some n) :
    ∃ v, w = .int64 v ∧ n = v.toInt32 := by
  cases w with
  | int64 v => exact ⟨v, rfl, (Option.some.inj h).symm⟩
  | _ => cases h

theorem integer_eq {key : String} {vi : Int32} {v : Int64}
    (h : g.getQualified (ascii key) = some (.int64 v)) : integer g key vi = .ok v.toInt32 := by
  rw [integer, valueOr, h]
  rfl

theorem poolSize_zero_iff (h : parseServiceProfile (some g) = .ok (some (na, la))) :
    na.poolSize.toUInt64 = 0 ↔ PoolEmpty g := by
  obtain ⟨⟨poolSize, hpool, heq⟩, -, -⟩ := parsed_args h
  have hzero : na.poolSize.toUInt64 = 0 ↔ na.poolSize.toNat = 0 := by
    rw [← UInt64.toNat_inj, UInt32.toNat_toUInt64]
    rfl
  rw [hzero, PoolEmpty]
  constructor
  · intro hnat
    rcases valueOr_eq_ok hpool with ⟨-, hdefault⟩ | ⟨w, hkey, hw⟩
    · rw [heq, hdefault] at hnat
      cases hnat
    · obtain ⟨v, rfl, rfl⟩ := asInt_eq_some hw
      have h32 := toNat_toUInt32 v
      rw [← heq] at h32
      exact ⟨v, hkey, by omega⟩
  · rintro ⟨v, hkey, hv⟩
    rw [integer_eq hkey] at hpool
    obtain rfl := Except.ok.inj hpool
    have h32 := toNat_toUInt32 v
    rw [heq]
    omega

theorem fromString_none_iff {Address : Type} (fromString : Bytes → Option Address)
    (h : parseServiceProfile (some g) = .ok (some (na, la))) :
    fromString na.address = none ↔ AddressRefused fromString g := by
  obtain ⟨-, -, haddress⟩ := parsed_args h
  constructor
  · intro hnone
    exact ⟨_, haddress, hnone⟩
  · rintro ⟨address, haddress', hnone⟩
    rwa [Except.ok.inj (haddress.symm.trans haddress')]

variable {Address : Type} (fromString : Bytes → Option Address)

theorem makeEndpoint_eq_some_iff (h : parseServiceProfile (some g) = .ok (some (na, la)))
    (e : Address × UInt16) : makeEndpoint fromString na = some e ↔
      ¬ PoolEmpty g ∧ ∃ address, fromString na.address = some address ∧
        e = (address, na.port.toUInt16) := by
  rw [makeEndpoint, ← poolSize_zero_iff h]
  by_cases hzero : na.poolSize.toUInt64 = 0
  · simp [hzero]
  · rw [if_neg hzero, Option.map_eq_some_iff]
    simp only [hzero, not_false_eq_true, true_and, eq_comm (a := e)]

theorem new_eq_some_iff (bound : Bool) (server : SubversionServer Address) :
    SubversionServer.new fromString bound na = some server ↔
      bound = true ∧ ∃ e, makeEndpoint fromString na = some e ∧
        server = ⟨na.poolSize.toUInt64, e⟩ := by
  rw [SubversionServer.new]
  cases makeEndpoint fromString na with
  | none => simp
  | some e => cases bound <;> simp [eq_comm]

/-- What is asked of the endpoint alone holds where there is none, or where it holds. -/
theorem forall_endpoint_iff (h : parseServiceProfile (some g) = .ok (some (na, la))) {Q : Prop} :
    (∀ e, makeEndpoint fromString na = some e → Q) ↔
      AddressRefused fromString g ∨ PoolEmpty g ∨ Q := by
  rw [← fromString_none_iff fromString h]
  constructor
  · intro hall
    by_cases hstop : fromString na.address = none ∨ PoolEmpty g
    · exact hstop.imp id Or.inl
    · obtain ⟨hnone, hempty⟩ := not_or.mp hstop
      obtain ⟨address, haddress⟩ := Option.ne_none_iff_exists'.mp hnone
      exact Or.inr (Or.inr (hall _ ((makeEndpoint_eq_some_iff fromString h _).mpr
        ⟨hempty, address, haddress, rfl⟩)))
  · intro hcond e hend
    obtain ⟨hempty, address, haddress, -⟩ := (makeEndpoint_eq_some_iff fromString h e).mp hend
    rcases hcond with hnone | hpool | hQ
    · cases hnone.symm.trans haddress
    · exact absurd hpool hempty
    · exact hQ

/-- The number of threads is that of the profile where it has 32 bits. -/
theorem pool_kept_iff (h : parseServiceProfile (some g) = .ok (some (na, la))) {v : Int64}
    (hkey : g.getQualified (ascii "Service.PoolSize") = some (.int64 v)) :
    (∀ bound server, SubversionServer.new fromString bound na = some server →
      (server.run : Int) = v.toInt) ↔
      AddressRefused fromString g ∨ v.toInt % 2 ^ 32 = 0 ∨ 0 ≤ v.toInt ∧ v.toInt < 2 ^ 32 := by
  obtain ⟨⟨poolSize, hpool, heq⟩, -, -⟩ := parsed_args h
  obtain rfl := Except.ok.inj ((integer_eq hkey).symm.trans hpool)
  have hrun : (na.poolSize.toUInt64.toNat : Int) = v.toInt % 2 ^ 32 := by
    rw [UInt32.toNat_toUInt64, heq, toNat_toUInt32]
  have hempty : PoolEmpty g ↔ v.toInt % 2 ^ 32 = 0 := by
    rw [← poolSize_zero_iff h, ← UInt64.toNat_inj]
    change na.poolSize.toUInt64.toNat = 0 ↔ _
    omega
  have hserver : (∀ bound server, SubversionServer.new fromString bound na = some server →
      (server.run : Int) = v.toInt) ↔
      ∀ e, makeEndpoint fromString na = some e → v.toInt % 2 ^ 32 = v.toInt := by
    constructor
    · intro hkept e hend
      rw [← hrun]
      exact hkept true _ ((new_eq_some_iff fromString true _).mpr ⟨rfl, e, hend, rfl⟩)
    · intro hkept bound server hnew
      obtain ⟨-, e, hend, rfl⟩ := (new_eq_some_iff fromString bound server).mp hnew
      exact hrun.trans (hkept e hend)
  have hmod : v.toInt % 2 ^ 32 = v.toInt ↔ 0 ≤ v.toInt ∧ v.toInt < 2 ^ 32 := by omega
  rw [hserver, forall_endpoint_iff fromString h, hempty, hmod]

/-- The port listened on is that of the profile where it has 16 bits. -/
theorem listening_port_kept_iff (h : parseServiceProfile (some g) = .ok (some (na, la))) {v : Int64}
    (hkey : g.getQualified (ascii "Network.Port") = some (.int64 v)) :
    (∀ e, makeEndpoint fromString na = some e → (e.2.toNat : Int) = v.toInt) ↔
      AddressRefused fromString g ∨ PoolEmpty g ∨ IsPort v := by
  obtain ⟨-, ⟨port, hport, heq⟩, -⟩ := parsed_args h
  obtain rfl := Except.ok.inj ((integer_eq hkey).symm.trans hport)
  have h16 : (na.port.toUInt16.toNat : Int) = v.toInt % 2 ^ 16 := by rw [heq, toNat_toUInt16]
  have hkept : (na.port.toUInt16.toNat : Int) = v.toInt ↔ IsPort v := by
    rw [h16, IsPort]
    omega
  rw [← hkept, ← forall_endpoint_iff fromString h]
  apply forall_congr'
  intro e
  apply imp_congr_right
  intro hend
  obtain ⟨-, address, -, rfl⟩ := (makeEndpoint_eq_some_iff fromString h e).mp hend
  exact Iff.rfl

end Server

theorem portOr_kept_iff {t : Table} {key : Bytes} {port : UInt16} {v : Int64}
    (hkey : t.getQualified key = some (.int64 v)) (hport : portOr t key = .ok port) :
    (port.toNat : Int) = v.toInt ↔ IsPort v := by
  rcases portOr_eq_ok hport with ⟨hnone, -⟩ | ⟨i64, hsome, rfl⟩
  · cases hkey.symm.trans hnone
  · obtain rfl := Base.int64.inj (Option.some.inj (hkey.symm.trans hsome))
    exact port_kept_iff v

section Router

variable {g : Table} {router : RouterSeletor} {v : Int64}
  (h : RouterSeletor.empty.initializeManager (some g) = .ok (true, router))
include h

theorem exists_content : ∃ ta, g.getTableArrayQualified (ascii "Host.Content") = some ta := by
  cases hcontent : g.getTableArrayQualified (ascii "Host.Content") with
  | none =>
    obtain ⟨d, p, -, -, hr⟩ := (initializeManager_without hcontent _).mp h
    cases congrArg Prod.fst hr
  | some ta => exact ⟨ta, rfl⟩

/-- The port for the owners that no element takes. -/
theorem default_port_kept_iff (hkey : g.getQualified (ascii "Host.port") = some (.int64 v))
    (a b : UInt8) (rest : Bytes) (elem : StorageElement)
    (howner : ∀ e ∈ router.hostElement, ¬ e.rule.Covers (ownerIndex a b)) :
    ((router.getAddress (a :: b :: rest) elem).2.port.toNat : Int) = v.toInt ↔ IsPort v := by
  obtain ⟨ta, hcontent⟩ := exists_content h
  obtain ⟨d, p, es, -, hport, -, hr⟩ := (initializeManager_with hcontent _).mp h
  obtain rfl : router = ⟨es, d, p⟩ := congrArg Prod.snd hr
  have hnone : ∀ r ∈ es.map HostElement.rule, ¬ r.Covers (ownerIndex a b) := by
    simpa using howner
  have hskip := select_skip ⟨p, d⟩ hnone []
  rw [List.append_nil] at hskip
  rw [getAddress_eq_select, hskip]
  exact portOr_kept_iff hkey hport

/-- The port for the owners that the element of an entry takes first. -/
theorem entry_port_kept_iff {ta pre post : List Table} {t : Table}
    (hcontent : g.getTableArrayQualified (ascii "Host.Content") = some ta)
    (hentry : ta.filter Kept = pre ++ t :: post)
    (hkey : t.getQualified (ascii "port") = some (.int64 v)) :
    ∃ before e after, router.hostElement = before ++ e :: after ∧ before.length = pre.length ∧
      ∀ (a b : UInt8) (rest : Bytes) (elem : StorageElement),
        (∀ e' ∈ before, ¬ e'.rule.Covers (ownerIndex a b)) → e.rule.Covers (ownerIndex a b) →
          (((router.getAddress (a :: b :: rest) elem).2.port.toNat : Int) = v.toInt ↔
            IsPort v) := by
  obtain ⟨d, p, es, -, -, hes, hr⟩ := (initializeManager_with hcontent _).mp h
  obtain rfl : router = ⟨es, d, p⟩ := congrArg Prod.snd hr
  rw [hentry] at hes
  obtain ⟨before, e, after, rfl, hlen, hloaded⟩ := forall₂_split hes
  refine ⟨before, e, after, rfl, hlen, ?_⟩
  intro a b rest elem hbefore hcovers
  rw [getAddress_eq_select, List.map_append, List.map_cons,
    select_first _ (by simpa using hbefore) hcovers]
  exact portOr_kept_iff hkey hloaded.port

end Router

/-- Which configured numbers come through, each where it is used. -/
theorem configured_numbers_kept_iff {Address : Type} (fromString : Bytes → Option Address)
    (g : Table) (v : Int64) :
    (∀ na la, parseServiceProfile (some g) = .ok (some (na, la)) →
      (g.getQualified (ascii "Service.PoolSize") = some (.int64 v) →
        ((∀ bound server, SubversionServer.new fromString bound na = some server →
          (server.run : Int) = v.toInt) ↔
          AddressRefused fromString g ∨ v.toInt % 2 ^ 32 = 0 ∨ 0 ≤ v.toInt ∧ v.toInt < 2 ^ 32)) ∧
      (g.getQualified (ascii "Network.Port") = some (.int64 v) →
        ((∀ e, makeEndpoint fromString na = some e → (e.2.toNat : Int) = v.toInt) ↔
          AddressRefused fromString g ∨ PoolEmpty g ∨ IsPort v))) ∧
    (∀ router, RouterSeletor.empty.initializeManager (some g) = .ok (true, router) →
      (g.getQualified (ascii "Host.port") = some (.int64 v) →
        ∀ (a b : UInt8) (rest : Bytes) (elem : StorageElement),
          (∀ e ∈ router.hostElement, ¬ e.rule.Covers (ownerIndex a b)) →
            (((router.getAddress (a :: b :: rest) elem).2.port.toNat : Int) = v.toInt ↔
              IsPort v)) ∧
      (∀ ta pre t post, g.getTableArrayQualified (ascii "Host.Content") = some ta →
        ta.filter Kept = pre ++ t :: post → t.getQualified (ascii "port") = some (.int64 v) →
        ∃ before e after, router.hostElement = before ++ e :: after ∧
          before.length = pre.length ∧
          ∀ (a b : UInt8) (rest : Bytes) (elem : StorageElement),
            (∀ e' ∈ before, ¬ e'.rule.Covers (ownerIndex a b)) → e.rule.Covers (ownerIndex a b) →
              (((router.getAddress (a :: b :: rest) elem).2.port.toNat : Int) = v.toInt ↔
                IsPort v))) := by
  refine ⟨fun na la h => ⟨fun hkey => ?_, fun hkey => ?_⟩,
    fun router h => ⟨fun hkey a b rest elem howner => ?_, fun ta pre t post hta hentry hkey => ?_⟩⟩
  · exact pool_kept_iff fromString h hkey
  · exact listening_port_kept_iff fromString h hkey
  · exact default_port_kept_iff h hkey a b rest elem howner
  · exact entry_port_kept_iff h hta hentry hkey

/-- One number under all four keys. -/
def numbered (v : Int64) : Table :=
  [(ascii "Service", .table [(ascii "PoolSize", .int64 v)]),
    (ascii "Network", .table [(ascii "Port", .int64 v)]),
    (ascii "Host", .table [(ascii "port", .int64 v),
      (ascii "Content", .tableArray
        [[(ascii "range", .string (ascii "B~D")), (ascii "address", .string (ascii "10.0.0.2")),
          (ascii "port", .int64 v)]])])]

/-- The address library on the only address used here. -/
def loopback (s : Bytes) : Option (List Nat) :=
  if s = ascii "127.0.0.1" then some [127, 0, 0, 1] else none

/-- The arguments that the profile gives. -/
def numberedArgs (v : Int64) : NetworkServerArgs where
  poolSize := v.toInt32.toUInt32
  port := v.toInt32.toUInt32
  compressionLevel := 0
  connectTimeout := 0xFFFFFFFF
  isDomainFilter := false
  isTunnel := false
  address := ascii "127.0.0.1"
  domain := ascii "git.oschina.net"

/-- The router of the document with 3690. -/
def numberedRouter : RouterSeletor where
  hostElement := [⟨rangeIndex 66 45, rangeIndex 68 122, 3690, true, ascii "10.0.0.2"⟩]
  defaultElement := ascii "192.168.1.12"
  defaultPort := 3690

theorem numbers_kept_sample :
    (∀ bound server, SubversionServer.new loopback bound (numberedArgs 3690) = some server →
      (server.run : Int) = 3690) ∧
    (∀ e, makeEndpoint loopback (numberedArgs 3690) = some e → (e.2.toNat : Int) = 3690) ∧
    ((numberedRouter.getAddress (ascii "Alice") ⟨0, []⟩).2.port.toNat : Int) = 3690 ∧
    ((numberedRouter.getAddress (ascii "Bob") ⟨0, []⟩).2.port.toNat : Int) = 3690 := by
  obtain ⟨hserver, hrouter⟩ := configured_numbers_kept_iff loopback (numbered 3690) 3690
  obtain ⟨hpool, hlisten⟩ := hserver (numberedArgs 3690) _ rfl
  obtain ⟨hdefault, hentries⟩ := hrouter numberedRouter rfl
  obtain ⟨before, e, after, hsplit, hlen, hentry⟩ := hentries _ [] _ [] rfl rfl rfl
  obtain rfl := List.length_eq_zero_iff.mp hlen
  obtain ⟨rfl, -⟩ := List.cons.inj hsplit
  have hport : IsPort 3690 := ⟨by decide, by decide⟩
  refine ⟨?_, ?_, ?_, ?_⟩
  · exact (hpool rfl).mpr (Or.inr (Or.inr ⟨by decide, by decide⟩))
  · exact (hlisten rfl).mpr (Or.inr (Or.inr hport))
  · apply (hdefault rfl 65 108 (ascii "ice") ⟨0, []⟩ _).mpr hport
    intro e he
    obtain rfl := List.mem_singleton.mp he
    decide
  · exact (hentry 66 111 (ascii "b") ⟨0, []⟩ (by simp) (by decide)).mpr hport

/-- 2^32 + 8 starts eight threads, and 2^16 + 80 is listened on and routed to as 80. -/
theorem numbers_changed :
    (∃ la server, parseServiceProfile (some (numbered 4294967304)) =
        .ok (some (numberedArgs 4294967304, la)) ∧
      SubversionServer.new loopback true (numberedArgs 4294967304) = some server ∧
      server.run = 8) ∧
    (∃ la router, parseServiceProfile (some (numbered 65616)) = .ok (some (numberedArgs 65616, la)) ∧
      makeEndpoint loopback (numberedArgs 65616) = some ([127, 0, 0, 1], 80) ∧
      RouterSeletor.empty.initializeManager (some (numbered 65616)) = .ok (true, router) ∧
      (router.getAddress (ascii "Alice") ⟨0, []⟩).2.port = 80 ∧
      (router.getAddress (ascii "Bob") ⟨0, []⟩).2.port = 80) :=
  ⟨⟨_, _, rfl, rfl, rfl⟩, ⟨_, _, rfl, rfl, rfl, by decide, by decide⟩⟩

end Svnsrv.Profile
