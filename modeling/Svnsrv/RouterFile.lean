import Svnsrv.CpptomlRead
import Svnsrv.RouterTable

/-!
# The router file

The table Host with its keys, and behind it one table of the array Host.Content for each entry.
In whatever way such a file is written, its text is parsed into a document that holds the router
table, and the owners are routed by it.
-/

namespace Svnsrv.Router

open CText Toml RangeTable Cpptoml
set_option autoImplicit false

/-! ## The tree of a router file -/

abbrev hostKey : Bytes := ascii "Host"

abbrev contentKey : Bytes := ascii "Content"

/-- The Host table with the entries read so far. -/
def withContent (h : Table) : List Table → Table
  | [] => h
  | t :: ta => h.insert contentKey (.tableArray (t :: ta))

theorem withContent_concat (h : Table) (ta : List Table) (t : Table) :
    withContent h (ta ++ [t]) = h.insert contentKey (.tableArray (ta ++ [t])) := by
  cases ta <;> rfl

def hostTree (u : Table) : Table := [(hostKey, .table u)]

theorem hostTree_get (u : Table) : (hostTree u).get hostKey = some (.table u) := by
  rw [hostTree, Table.get_cons, if_pos rfl]

theorem hostTree_focus (u : Table) (path : List Bytes) :
    (hostTree u).focus (hostKey :: path) = u.focus path := by
  rw [Table.focus_cons, hostTree_get]
  rfl

theorem hostTree_setFocus (u w : Table) (path : List Bytes) :
    (hostTree u).setFocus (hostKey :: path) w = hostTree (u.setFocus path w) := by
  rw [Table.setFocus_cons (hostTree_get u) rfl]
  simp only [hostTree, Table.insert, if_true, Base.setInner]

/-- The statements of a router file. -/
def routerStatements (h : Table) (ta : List Table) : List Statement :=
  .table [hostKey] :: (keyValues h ++
    ta.flatMap fun t => .tableArray [hostKey, contentKey] :: keyValues t)

theorem run_content (n : Nat) (path : List Bytes) (u : Table) :
    (Statement.tableArray [hostKey, contentKey]).run n ⟨hostTree u, path⟩ =
      Builder.openTableArray ⟨hostTree u, [hostKey]⟩ n (qualify hostKey contentKey) contentKey
        true := by
  have hget : (Builder.currTable ⟨hostTree u, []⟩).get hostKey = some (.table u) := by
    rw [Builder.currTable, Table.focus_nil, Option.getD_some, hostTree_get]
  have hhost : Builder.openTableArray ⟨hostTree u, []⟩ n hostKey hostKey false =
      .ok ⟨hostTree u, [hostKey]⟩ := by
    unfold Builder.openTableArray
    rw [hget]
    rfl
  have hnehost : hostKey ≠ [] := by decide
  have hnecontent : contentKey ≠ [] := by decide
  have hfull : qualify [] hostKey = hostKey := rfl
  simp only [Statement.run, openTableArrays, List.isEmpty_cons, List.isEmpty_nil, if_neg hnehost,
    if_neg hnecontent, hfull, hhost, bind, Except.bind]
  cases Builder.openTableArray ⟨hostTree u, [hostKey]⟩ n (qualify hostKey contentKey) contentKey
    true <;> rfl

/-- The header of an entry opens a new table. -/
theorem run_entry {h : Table} (hcontent : h.contains contentKey = false) (ta : List Table)
    (path : List Bytes) (n : Nat) :
    (Statement.tableArray [hostKey, contentKey]).run n ⟨hostTree (withContent h ta), path⟩ =
      .ok ⟨hostTree (withContent h (ta ++ [[]])), [hostKey, contentKey]⟩ := by
  have hcurr : ∀ u, Builder.currTable ⟨hostTree u, [hostKey]⟩ = u := by
    intro u
    rw [Builder.currTable, hostTree_focus, Table.focus_nil, Option.getD_some]
  have hset : ∀ u w, Builder.set ⟨hostTree u, [hostKey]⟩ w = ⟨hostTree w, [hostKey]⟩ := by
    intro u w
    rw [Builder.set, hostTree_setFocus]
    rfl
  rw [run_content, withContent_concat]
  unfold Builder.openTableArray
  rw [hcurr]
  cases ta with
  | nil =>
    have hnone : h.get contentKey = none := by
      simpa [Table.contains] using hcontent
    simp only [withContent, hnone, hset]
    rfl
  | cons t ta =>
    simp only [withContent, Table.get_insert_self, hset, Table.insert_insert]
    rfl

theorem leads_content {h : Table} (hcontent : h.contains contentKey = false)
    (before ta : List Table) (hkeys : ∀ t ∈ ta, (t.map Prod.fst).Nodup)
    (path : List Bytes) :
    ∃ last, Leads ⟨hostTree (withContent h before), path⟩
      (ta.flatMap fun t => .tableArray [hostKey, contentKey] :: keyValues t)
      ⟨hostTree (withContent h (before ++ ta)), last⟩ := by
  induction ta generalizing before path with
  | nil => exact ⟨path, by rw [List.append_nil]; exact .nil⟩
  | cons t ta ih =>
    obtain ⟨last, hrest⟩ := ih (before ++ [t]) (fun u hu => hkeys u (List.mem_cons_of_mem t hu))
      [hostKey, contentKey]
    have hfocus : ∀ u, (hostTree (withContent h (before ++ [u]))).focus [hostKey, contentKey] =
        some u := by
      intro u
      rw [hostTree_focus, withContent_concat, Table.focus_cons, Table.get_insert_self]
      simp [Base.inner, Table.focus_nil]
    have hset : ∀ u w, (hostTree (withContent h (before ++ [u]))).setFocus [hostKey, contentKey] w =
        hostTree (withContent h (before ++ [w])) := by
      intro u w
      have hinner : Base.inner (.tableArray (before ++ [u])) = some u := by simp [Base.inner]
      rw [hostTree_setFocus, withContent_concat, withContent_concat,
        Table.setFocus_cons Table.get_insert_self hinner, Table.insert_insert]
      simp [Base.setInner, Table.setFocus]
    have hentry := leads_keyValues (fun u => hostTree (withContent h (before ++ [u])))
      [hostKey, contentKey] (u := []) (t := t) hfocus hset (hkeys t List.mem_cons_self)
    rw [List.append_assoc] at hrest
    exact ⟨last, .cons (run_entry hcontent before path) (hentry.append hrest)⟩

theorem build_routerStatements {h : Table} {ta : List Table} (hkeys : (h.map Prod.fst).Nodup)
    (hcontent : h.contains contentKey = false) (htables : ∀ t ∈ ta, (t.map Prod.fst).Nodup)
    {statements : List (Option Statement)}
    (hstatements : statements.reduceOption = routerStatements h ta) (n : Nat) :
    build statements n ⟨[], []⟩ = .ok (hostTree (withContent h ta)) := by
  have hheader : ∀ n, (Statement.table [hostKey]).run n ⟨[], []⟩ = .ok ⟨hostTree [], [hostKey]⟩ :=
    fun _ => rfl
  have hhost := leads_keyValues hostTree [hostKey] (u := []) (t := h)
    (fun u => (hostTree_focus u []).trans Table.focus_nil)
    (fun u w => (hostTree_setFocus u w []).trans (by rw [Table.setFocus])) hkeys
  obtain ⟨last, hentries⟩ := leads_content hcontent [] ta htables [hostKey]
  have hleads := Leads.cons hheader (hhost.append hentries)
  rw [← routerStatements, ← hstatements] at hleads
  exact build_of_leads hleads n

/-! ## Routing by a file -/

structure Host.IsReadFrom (host : Host) (h : Table) : Prop where
  address : h.getQualified (ascii "address") = host.address.map .string
  port : h.getQualified (ascii "port") = host.port.map portValue

theorem getQualified_host {h : Table} {ta : List Table} {key : Bytes} (hkey : key ≠ contentKey)
    {path : Bytes} (hpath : path.splitOn 46 = [hostKey, key]) (hone : key.splitOn 46 = [key]) :
    (hostTree (withContent h ta)).getQualified path = h.getQualified key := by
  have hget : (withContent h ta).get key = h.get key := by
    cases ta with
    | nil => rfl
    | cons t ta => exact Table.get_insert_of_ne hkey
  simp [Table.getQualified, hpath, hone, Table.descend, hostTree_get, Base.asTable, hget]

theorem describes_hostTree {h : Table} {ta : List Table} {host : Host} {entries : List Entry}
    (hhost : host.IsReadFrom h) (hread : AreReadFrom entries ta) (hne : entries ≠ []) :
    Describes (hostTree (withContent h ta)) host entries where
  address := by
    rw [← hhost.address]
    exact getQualified_host (by decide) rfl rfl
  port := by
    rw [← hhost.port]
    exact getQualified_host (by decide) rfl rfl
  content := by
    refine ⟨ta, ?_, hread⟩
    cases hread with
    | nil => exact absurd rfl hne
    | @cons e t entries ta head tail =>
      have hpath : (ascii "Host.Content").splitOn 46 = [hostKey, contentKey] := rfl
      simp [Table.getTableArrayQualified, Table.getQualified, hpath, Table.descend, hostTree_get,
        Base.asTable, withContent, Base.asTableArray]

/-- Whatever way the router file is written, an owner that starts with two ASCII characters goes to
the first enabled entry of the file whose interval contains them, or to the default of the file. -/
theorem routes_by_file (inRange : Bytes → Bool) {lines : List Line} {last : Line} {h : Table}
    {ta : List Table} {host : Host} {entries : List Entry}
    (hlines : ((lines ++ [last]).map fun l => l.body.statement).reduceOption =
      routerStatements h ta)
    (hkeys : (h.map Prod.fst).Nodup) (hcontent : h.contains contentKey = false)
    (htables : ∀ t ∈ ta, (t.map Prod.fst).Nodup)
    (hhost : host.IsReadFrom h) (hread : AreReadFrom entries ta) (hne : entries ≠ []) :
    ∃ g router, parse inRange (documentText lines ++ last.text) = .ok g ∧
      RouterSeletor.empty.initializeManager (some g) = .ok (true, router) ∧
      ∀ (a b : UInt8) (rest : Bytes) (elem : StorageElement), a < 128 → b < 128 →
        router.getAddress (a :: b :: rest) elem =
          (true, select host.target (toLex (a, b)) (entries.map Entry.rule)) := by
  obtain ⟨router, hload, hroutes⟩ :=
    routes_by_documented_table (describes_hostTree hhost hread hne) hne
  refine ⟨_, router, ?_, hload, hroutes⟩
  rw [parse_lines inRange (getlines_written lines last)]
  apply build_routerStatements hkeys hcontent htables
  by_cases hlast : last.text = []
  · rw [List.map_append, List.map_singleton, Line.statement_of_nil hlast,
      List.reduceOption_append, List.reduceOption_singleton, Option.toList_none,
      List.append_nil] at hlines
    rw [if_pos hlast, hlines]
  · rw [if_neg hlast, hlines]

/-! A file with a comment, a Host table and two entries, which ends without a newline. -/

def noBlanks : Blanks := ⟨[], List.forall_mem_nil _⟩

def bareKey (name : Bytes) (h : name.isEmpty = false ∧ name.all isNameByte = true) : Key :=
  .bare name (List.isEmpty_eq_false_iff.mp h.1) (List.all_eq_true.mp h.2)

def plainLine (body : Body) : Line := ⟨noBlanks, body, noBlanks, none⟩

def plainKeyValue (name : Bytes) (h : name.isEmpty = false ∧ name.all isNameByte = true)
    (value : Value) : Line := plainLine (.keyValue (bareKey name h) noBlanks noBlanks value)

theorem sampleHost_literal : apostrophe ∉ ascii "10.0.0.1" ∧ newline ∉ ascii "10.0.0.1" := by
  decide

theorem sampleRange_literal : apostrophe ∉ ascii "B~D" ∧ newline ∉ ascii "B~D" := by decide

theorem sampleAddress_literal :
    apostrophe ∉ ascii "192.168.1.13" ∧ newline ∉ ascii "192.168.1.13" := by decide

theorem laterRange_literal : apostrophe ∉ ascii "A~Z" ∧ newline ∉ ascii "A~Z" := by decide

theorem laterAddress_literal :
    apostrophe ∉ ascii "192.168.1.14" ∧ newline ∉ ascii "192.168.1.14" := by decide

theorem sampleComment_line : newline ∉ ascii " router" := by decide

theorem three_digit : isDigit 51 = true := by decide

theorem nine_digit : isDigit 57 = true := by decide

theorem samplePort_fits : -2 ^ 63 ≤ (39 : Int) ∧ (39 : Int) < 2 ^ 63 := by decide

def samplePort : Integer where
  sign := .none
  digits := ⟨⟨51, three_digit⟩, [(false, ⟨57, nine_digit⟩)]⟩
  value := 39
  value_eq := rfl
  fits := samplePort_fits

def sampleLines : List Line :=
  let host : Part := ⟨noBlanks, bareKey hostKey ⟨rfl, rfl⟩, noBlanks⟩
  let content : Part := ⟨noBlanks, bareKey contentKey ⟨rfl, rfl⟩, noBlanks⟩
  [⟨noBlanks, .empty, noBlanks, some ⟨ascii " router", sampleComment_line⟩⟩,
    plainLine (.table ⟨host, []⟩),
    plainKeyValue (ascii "address") ⟨rfl, rfl⟩ (.literal ⟨ascii "10.0.0.1", sampleHost_literal⟩),
    plainKeyValue (ascii "port") ⟨rfl, rfl⟩ (.integer samplePort),
    plainLine (.tableArray ⟨host, [content]⟩),
    plainKeyValue (ascii "range") ⟨rfl, rfl⟩ (.literal ⟨ascii "B~D", sampleRange_literal⟩),
    plainKeyValue (ascii "address") ⟨rfl, rfl⟩
      (.literal ⟨ascii "192.168.1.13", sampleAddress_literal⟩),
    plainLine (.tableArray ⟨host, [content]⟩),
    plainKeyValue (ascii "range") ⟨rfl, rfl⟩ (.literal ⟨ascii "A~Z", laterRange_literal⟩)]

def sampleLast : Line :=
  plainKeyValue (ascii "address") ⟨rfl, rfl⟩
    (.literal ⟨ascii "192.168.1.14", laterAddress_literal⟩)

theorem letterA_ascii : (65 : UInt8) < 128 ∧ (65 : UInt8) ≠ tilde ∧ (65 : UInt8) ≠ 0 := by decide

theorem letterB_ascii : (66 : UInt8) < 128 ∧ (66 : UInt8) ≠ tilde ∧ (66 : UInt8) ≠ 0 := by decide

theorem letterD_ascii : (68 : UInt8) < 128 ∧ (68 : UInt8) ≠ tilde ∧ (68 : UInt8) ≠ 0 := by decide

theorem letterZ_ascii : (90 : UInt8) < 128 ∧ (90 : UInt8) ≠ tilde ∧ (90 : UInt8) ≠ 0 := by decide

def sampleEntry : Entry where
  range := .span (.one ⟨66, letterB_ascii⟩) (.one ⟨68, letterD_ascii⟩)
  address := ascii "192.168.1.13"
  port := none
  enable := none

def laterEntry : Entry where
  range := .span (.one ⟨65, letterA_ascii⟩) (.one ⟨90, letterZ_ascii⟩)
  address := ascii "192.168.1.14"
  port := none
  enable := none

def sampleHost : Table :=
  [(ascii "address", .string (ascii "10.0.0.1")), (ascii "port", .int64 39)]

def sampleTables : List Table :=
  [[(ascii "range", .string (ascii "B~D")), (ascii "address", .string (ascii "192.168.1.13"))],
    [(ascii "range", .string (ascii "A~Z")), (ascii "address", .string (ascii "192.168.1.14"))]]

set_option maxRecDepth 10000 in
/-- Owners from B to D go to the first entry, which stands in front of the wider one. -/
theorem routes_by_sampleFile :
    documentText sampleLines ++ sampleLast.text =
      ascii ("# router\n[Host]\naddress='10.0.0.1'\nport=39\n" ++
        "[[Host.Content]]\nrange='B~D'\naddress='192.168.1.13'\n" ++
        "[[Host.Content]]\nrange='A~Z'\naddress='192.168.1.14'") ∧
    ∃ g router, parse (fun _ => true) (documentText sampleLines ++ sampleLast.text) = .ok g ∧
      RouterSeletor.empty.initializeManager (some g) = .ok (true, router) ∧
      ∀ (a b : UInt8) (rest : Bytes) (elem : StorageElement), a < 128 → b < 128 →
        router.getAddress (a :: b :: rest) elem =
          (true, select ⟨39, ascii "10.0.0.1"⟩ (toLex (a, b))
            [sampleEntry.rule, laterEntry.rule]) := by
  have hkeys : ∀ t ∈ sampleTables, (t.map Prod.fst).Nodup := by
    have hne : ascii "range" ≠ ascii "address" := by decide
    simp [sampleTables, hne]
  have hhostkeys : (sampleHost.map Prod.fst).Nodup := by
    have hne : ascii "address" ≠ ascii "port" := by decide
    simp [sampleHost, hne]
  have hhost : (⟨ascii "10.0.0.1", some 39⟩ : Host).IsReadFrom sampleHost := ⟨rfl, rfl⟩
  have hread : AreReadFrom [sampleEntry, laterEntry] sampleTables :=
    .cons ⟨rfl, rfl, rfl, rfl⟩ (.cons ⟨rfl, rfl, rfl, rfl⟩ .nil)
  exact ⟨rfl, routes_by_file (fun _ => true) rfl hhostkeys rfl hkeys hhost hread
    (List.cons_ne_nil _ _)⟩

end Svnsrv.Router
