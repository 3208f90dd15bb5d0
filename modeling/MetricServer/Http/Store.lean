import MetricServer.Base.Split
import MetricServer.Http.Response
import Mathlib.Data.List.Induction
import Mathlib.Data.List.Pairwise

/-! What the metric database holds and publishes. Its calls are upserts of one map, whose
entries the text lists on one line each; cut into lines, and these at their first space,
the text gives the entries back. An update sets its metrics in groups, each as far as it
can be read, and what the database holds after many updates is what was last read of each
group. -/

namespace MetricServer.Http

open Base

namespace MetricDatabase

variable {db : MetricDatabase} {name : Bytes}

/-! ### The map -/

/-- The database after a list of `setMetric` calls. -/
def setMetrics (db : MetricDatabase) (calls : List (Bytes × Bytes)) : MetricDatabase :=
  calls.foldl (fun db e => db.setMetric e.1 e.2) db

theorem setMetric_mdb (db : MetricDatabase) (name value : Bytes) :
    (db.setMetric name value)._mdb = db._mdb.set name value := by
  rw [setMetric, OrderedMap.set]
  split_ifs <;> rfl

theorem setMetrics_mdb (db : MetricDatabase) (calls : List (Bytes × Bytes)) :
    (db.setMetrics calls)._mdb = db._mdb.setAll calls := by
  induction calls generalizing db with
  | nil => rfl
  | cons e calls ih =>
    have hstep : db.setMetrics (e :: calls) = (db.setMetric e.1 e.2).setMetrics calls := rfl
    rw [hstep, ih, setMetric_mdb]
    rfl

/-- The value of the last call for a name is found. -/
theorem find_setMetrics (calls : List (Bytes × Bytes)) (name : Bytes) :
    (new.setMetrics calls)._mdb.find name = calls.reverse.lookup name := by
  rw [setMetrics_mdb, OrderedMap.find_setAll, new, OrderedMap.find_empty, Option.or_none]

/-! ### The text -/

/-- The entries a text lists: every line is ended, and holds a name up to its first space and
a value after it. -/
def readMetrics (text : Bytes) : Option (List (Bytes × Bytes)) :=
  let lines := text.splitOn 10
  if lines.getLast? = some [] then lines.dropLast.mapM (cut · (ascii " ")) else none

/-- The name and the value fit on a line. -/
structure Publishable (e : Bytes × Bytes) : Prop where
  space_notMem_name : (32 : Byte) ∉ e.1
  newline_notMem_name : (10 : Byte) ∉ e.1
  newline_notMem_value : (10 : Byte) ∉ e.2

def line (e : Bytes × Bytes) : Bytes := e.1 ++ ascii " " ++ e.2

theorem Publishable.cut_line {e : Bytes × Bytes} (h : Publishable e) :
    cut (line e) (ascii " ") = some e :=
  cut_append h.space_notMem_name e.2

theorem Publishable.newline_notMem_line {e : Bytes × Bytes} (h : Publishable e) :
    (10 : Byte) ∉ line e := by
  have hspace : (10 : Byte) ∉ ascii " " := by decide
  simp [line, h.newline_notMem_name, h.newline_notMem_value, hspace]

theorem prepareAllMetricsBody_eq (db : MetricDatabase) :
    db.prepareAllMetricsBody = [10].intercalate (db._mdb.entries.map line ++ [[]]) := by
  rw [prepareAllMetricsBody]
  induction db._mdb.entries with
  | nil => rfl
  | cons e es ih =>
    rw [List.flatMap_cons, ih, List.map_cons, List.cons_append,
      List.intercalate_cons_of_ne_nil (by simp)]
    rfl

theorem mapM_cut_line {es : List (Bytes × Bytes)} (h : ∀ e ∈ es, Publishable e) :
    (es.map line).mapM (cut · (ascii " ")) = some es := by
  induction es with
  | nil => rfl
  | cons e es ih =>
    have hrest := ih fun e' he' => h e' (List.mem_cons_of_mem e he')
    rw [List.map_cons, List.mapM_cons, (h e List.mem_cons_self).cut_line, hrest]
    rfl

/-- The text is read back as the entries. -/
theorem readMetrics_prepareAllMetricsBody (h : ∀ e ∈ db._mdb.entries, Publishable e) :
    readMetrics db.prepareAllMetricsBody = some db._mdb.entries := by
  have hlines : db.prepareAllMetricsBody.splitOn 10 = db._mdb.entries.map line ++ [[]] := by
    rw [prepareAllMetricsBody_eq, List.splitOn_intercalate]
    · intro l hl
      rcases List.mem_append.mp hl with hl | hl
      · obtain ⟨e, he, rfl⟩ := List.mem_map.mp hl
        exact (h e he).newline_notMem_line
      · simp [List.mem_singleton.mp hl]
    · simp
  rw [readMetrics, hlines, if_pos (by simp), List.dropLast_concat, mapM_cut_line h]

/-- What was set on an empty database fits on lines if every call did. -/
theorem publishable_entries {calls : List (Bytes × Bytes)} (h : ∀ e ∈ calls, Publishable e) :
    ∀ e ∈ (new.setMetrics calls)._mdb.entries, Publishable e := by
  rintro ⟨name, value⟩ he
  rw [OrderedMap.mem_entries_iff, find_setMetrics, List.lookup_eq_some_iff] at he
  obtain ⟨before, after, heq, -⟩ := he
  refine h _ (List.mem_reverse.mp ?_)
  rw [heq]
  simp

end MetricDatabase

/-! ### Readings -/

/-- The metrics that `update` sets together: those it always sets, and four groups that it
sets when they can be read. -/
inductive Group where
  | compiler | caches | cpu | usage | machine
  deriving DecidableEq

def Group.names : Group → List Bytes
  | .compiler => [ascii "compilationQueueSize", ascii "numberOfClients",
      ascii "totalNumberOfCompilationThreads", ascii "totalNumberOfActiveThreads",
      ascii "physicalMemoryFreeInMB"]
  | .caches => [ascii "numberOfClearedCaches"]
  | .cpu => [ascii "percentCpuLoad", ascii "percentAverageCpuLoad", ascii "percentJVMCpuLoad"]
  | .usage => [ascii "metricServerMaxPeakMemInKB", ascii "metricServerNumPageFaultNotIO",
      ascii "metricServerNumPageFaultByIO", ascii "metricServerNumInput",
      ascii "metricServerNumOutput", ascii "metricServerNumVolCS", ascii "metricServerNumInVolCS"]
  | .machine => [ascii "machineTotalUsageMemInB", ascii "machineTotalFreeMemInB"]

def Group.all : List Group := [.compiler, .caches, .cpu, .usage, .machine]

namespace Snapshot

/-- The values of a group, if it can be read. -/
def values (s : Snapshot) : Group → Option (List Bytes)
  | .compiler => some [decimal s.methodQueueSize, decimal s.clientSessions,
      decimal s.numUsableCompilationThreads, decimal s.numCompThreadsActive,
      decimal (s.freePhysicalMemory >>> 20 : ℕ)]
  | .caches => if 0 < s.numClearedCaches then some [decimal s.numClearedCaches] else none
  | .cpu =>
    if s.isFunctional then some [decimal s.cpuUsage, decimal s.avgCpuUsage, decimal s.vmCpuUsage]
    else none
  | .usage => s.rusage.map fun r => [decimal r.ru_maxrss, decimal r.ru_minflt,
      decimal r.ru_majflt, decimal r.ru_inblock, decimal r.ru_oublock, decimal r.ru_nvcsw,
      decimal r.ru_nivcsw]
  | .machine => s.sysinfo.map fun i => [decimal i.totalram, decimal i.freeram]

/-- The metrics of a group, none when it cannot be read. -/
def reading (s : Snapshot) (g : Group) : List (Bytes × Bytes) := g.names.zip ((s.values g).getD [])

/-- The calls of `setMetric` in an update. -/
def calls (s : Snapshot) : List (Bytes × Bytes) := Group.all.flatMap s.reading

end Snapshot

namespace MetricDatabase

variable {db : MetricDatabase} {s : Snapshot}

theorem setMetrics_append (db : MetricDatabase) (calls calls' : List (Bytes × Bytes)) :
    db.setMetrics (calls ++ calls') = (db.setMetrics calls).setMetrics calls' :=
  List.foldl_append

theorem setMetrics_caches (db : MetricDatabase) (s : Snapshot) :
    db.setMetrics (s.reading .caches) =
      if 0 < s.numClearedCaches then
        db.setMetric (ascii "numberOfClearedCaches") (decimal s.numClearedCaches)
      else db := by
  rw [Snapshot.reading, Snapshot.values]
  split_ifs <;> rfl

theorem update_eq (db : MetricDatabase) (s : Snapshot) : db.update s = db.setMetrics s.calls := by
  have hcalls : s.calls = s.reading .compiler ++ (s.reading .caches ++ (s.reading .cpu ++
      (s.reading .usage ++ s.reading .machine))) := by
    simp [Snapshot.calls, Group.all]
  rw [hcalls, setMetrics_append, setMetrics_append, setMetrics_append, setMetrics_append,
    setMetrics_caches]
  cases hcpu : s.isFunctional <;> cases husage : s.rusage <;> cases hmachine : s.sysinfo <;>
    simp [update, setMetrics, Snapshot.reading, Snapshot.values, Group.names, hcpu, husage,
      hmachine]

end MetricDatabase

/-! ### Groups and names -/

namespace Group

variable {g g' : Group} {name : Bytes}

theorem mem_all (g : Group) : g ∈ all := by cases g <;> decide

theorem nodup_flatMap_names : (all.flatMap names).Nodup := by decide +kernel

theorem nodup_names (g : Group) : g.names.Nodup :=
  (List.nodup_flatMap.mp nodup_flatMap_names).1 g g.mem_all

/-- A name stands in one group. -/
theorem eq_of_mem_names (h : name ∈ g.names) (h' : name ∈ g'.names) : g = g' := by
  by_contra hne
  have hsymm : Std.Symm (Function.onFun List.Disjoint names) := ⟨fun _ _ h _ ha hb => h hb ha⟩
  exact (List.nodup_flatMap.mp nodup_flatMap_names).2.forall g.mem_all g'.mem_all hne h h'

theorem notMem_names (g : Group) : ∀ name ∈ g.names, (32 : Byte) ∉ name ∧ (10 : Byte) ∉ name := by
  cases g <;> decide +kernel

end Group

theorem newline_notMem_decimal (n : ℤ) : (10 : Byte) ∉ decimal n := by
  have hdigits : (10 : Byte) ∉ (Nat.toDigits 10 n.natAbs).map fun c => UInt8.ofNat c.toNat := by
    intro h
    obtain ⟨c, hc, heq⟩ := List.mem_map.mp h
    have hdigit := Nat.isDigit_of_mem_toDigits (by omega) (by omega) hc
    simp only [Char.isDigit, Bool.and_eq_true, decide_eq_true_eq, ge_iff_le, UInt32.le_iff_toNat_le]
      at hdigit
    have htoNat := congrArg UInt8.toNat heq
    rw [UInt8.toNat_ofNat', show (10 : Byte).toNat = 10 from rfl] at htoNat
    have hle : c.toNat ≤ 57 := hdigit.2
    have hge : 48 ≤ c.toNat := hdigit.1
    omega
  rw [decimal]
  split_ifs
  · rw [List.mem_append, not_or]
    exact ⟨by decide, hdigits⟩
  · exact hdigits

namespace Snapshot

variable {s : Snapshot} {g : Group} {vs : List Bytes} {e : Bytes × Bytes}

/-- Every name of a group that can be read has a number for its value. -/
theorem values_spec (h : s.values g = some vs) :
    vs.length = g.names.length ∧ ∀ v ∈ vs, (10 : Byte) ∉ v := by
  cases g with
  | compiler =>
    cases h
    simp [Group.names, newline_notMem_decimal]
  | caches =>
    obtain ⟨-, heq⟩ := Option.ite_none_right_eq_some.mp h
    cases heq
    simp [Group.names, newline_notMem_decimal]
  | cpu =>
    obtain ⟨-, heq⟩ := Option.ite_none_right_eq_some.mp h
    cases heq
    simp [Group.names, newline_notMem_decimal]
  | usage =>
    obtain ⟨r, -, rfl⟩ := Option.map_eq_some_iff.mp h
    simp [Group.names, newline_notMem_decimal]
  | machine =>
    obtain ⟨i, -, rfl⟩ := Option.map_eq_some_iff.mp h
    simp [Group.names, newline_notMem_decimal]

theorem mem_names_of_mem_reading (h : e ∈ s.reading g) : e.1 ∈ g.names :=
  (List.of_mem_zip (show (e.1, e.2) ∈ _ from h)).1

theorem nodup_reading (s : Snapshot) (g : Group) : ((s.reading g).map Prod.fst).Nodup := by
  rw [reading]
  cases hvalues : s.values g with
  | none => simp
  | some vs =>
    rw [Option.getD_some, List.map_fst_zip (values_spec hvalues).1.ge]
    exact g.nodup_names

theorem nodup_calls (s : Snapshot) : (s.calls.map Prod.fst).Nodup := by
  rw [calls, List.map_flatMap, List.nodup_flatMap]
  refine ⟨fun g _ => s.nodup_reading g, ?_⟩
  refine (List.nodup_flatMap.mp Group.nodup_flatMap_names).2.imp fun hdisjoint name h h' => ?_
  obtain ⟨e, he, rfl⟩ := List.mem_map.mp h
  obtain ⟨e', he', heq⟩ := List.mem_map.mp h'
  exact hdisjoint (mem_names_of_mem_reading he) (heq ▸ mem_names_of_mem_reading he')

/-- A metric of a group is looked up in its reading. -/
theorem lookup_calls (s : Snapshot) {name : Bytes} (h : name ∈ g.names) :
    s.calls.lookup name = (s.reading g).lookup name := by
  ext value
  rw [lookup_eq_some_iff_mem s.nodup_calls, lookup_eq_some_iff_mem (s.nodup_reading g), calls,
    List.mem_flatMap]
  constructor
  · rintro ⟨g', -, hmem⟩
    rwa [Group.eq_of_mem_names h (mem_names_of_mem_reading hmem)]
  · exact fun hmem => ⟨g, g.mem_all, hmem⟩

theorem publishable_calls (s : Snapshot) : ∀ e ∈ s.calls, MetricDatabase.Publishable e := by
  intro e he
  obtain ⟨g, -, hmem⟩ := List.mem_flatMap.mp he
  obtain ⟨hspace, hnewline⟩ := g.notMem_names e.1 (mem_names_of_mem_reading hmem)
  refine ⟨hspace, hnewline, ?_⟩
  have hvalue := (List.of_mem_zip (show (e.1, e.2) ∈ _ from hmem)).2
  cases hvalues : s.values g with
  | none => simp [hvalues] at hvalue
  | some vs => exact (values_spec hvalues).2 e.2 (by simpa [hvalues] using hvalue)

end Snapshot

/-! ### After many updates -/

/-- The values last read of a group. -/
def latest (ss : List Snapshot) (g : Group) : Option (List Bytes) :=
  ss.reverse.findSome? (·.values g)

theorem latest_concat (ss : List Snapshot) (s : Snapshot) (g : Group) :
    latest (ss ++ [s]) g = (s.values g).or (latest ss g) := by
  rw [latest, List.reverse_concat, List.findSome?_cons]
  cases s.values g <;> rfl

/-- Keys that are zipped with values look these up. -/
theorem map_lookup_zip {names vs : List Bytes} (hnodup : names.Nodup)
    (hlen : vs.length = names.length) :
    names.map (fun name => (names.zip vs).lookup name) = vs.map some := by
  induction names generalizing vs with
  | nil => simp_all
  | cons name names ih =>
    cases vs with
    | nil => simp at hlen
    | cons v vs =>
      obtain ⟨hname, hnames⟩ := List.nodup_cons.mp hnodup
      have hrest (n : Bytes) (hn : n ∈ names) :
          (((name, v) :: names.zip vs).lookup n) = (names.zip vs).lookup n := by
        rw [List.lookup_cons, beq_eq_false_iff_ne.mpr (ne_of_mem_of_not_mem hn hname)]
      rw [List.zip_cons_cons, List.map_cons, List.lookup_cons_self, List.map_cons,
        List.map_congr_left hrest, ih hnames (by simpa using hlen)]

namespace MetricDatabase

/-- An empty database after the updates. -/
def ofUpdates (ss : List Snapshot) : MetricDatabase := ss.foldl update new

variable {ss ss' : List Snapshot}

theorem ofUpdates_concat (ss : List Snapshot) (s : Snapshot) :
    ofUpdates (ss ++ [s]) = (ofUpdates ss).update s := by
  simp [ofUpdates]

theorem ofUpdates_eq (ss : List Snapshot) :
    ofUpdates ss = new.setMetrics (ss.flatMap Snapshot.calls) := by
  induction ss using List.reverseRecOn with
  | nil => rfl
  | append_singleton ss s ih =>
    rw [ofUpdates_concat, update_eq, ih, ← setMetrics_append]
    simp

/-- A metric holds what was last read of its group. -/
theorem map_find_ofUpdates (ss : List Snapshot) (g : Group) :
    g.names.map (ofUpdates ss)._mdb.find =
      (latest ss g).elim (g.names.map fun _ => none) (List.map some) := by
  induction ss using List.reverseRecOn with
  | nil => rfl
  | append_singleton ss s ih =>
    have hfind (name : Bytes) (hname : name ∈ g.names) :
        ((ofUpdates ss).update s)._mdb.find name =
          ((s.reading g).lookup name).or ((ofUpdates ss)._mdb.find name) := by
      rw [update_eq, setMetrics_mdb, OrderedMap.find_setAll, lookup_reverse s.nodup_calls,
        s.lookup_calls hname]
    rw [ofUpdates_concat, List.map_congr_left hfind, latest_concat, Snapshot.reading]
    cases hvalues : s.values g with
    | none => simpa using ih
    | some vs =>
      have hmap := map_lookup_zip g.nodup_names (Snapshot.values_spec hvalues).1
      have hlookup (name : Bytes) (hname : name ∈ g.names) :
          ((g.names.zip vs).lookup name).or ((ofUpdates ss)._mdb.find name) =
            (g.names.zip vs).lookup name := by
        have hmem := List.mem_map_of_mem (f := fun name => (g.names.zip vs).lookup name) hname
        rw [hmap] at hmem
        obtain ⟨v, -, hv⟩ := List.mem_map.mp hmem
        rw [← hv, Option.some_or]
      exact (List.map_congr_left hlookup).trans hmap

theorem find_ofUpdates_of_notMem {name : Bytes} (h : ∀ g : Group, name ∉ g.names) :
    (ofUpdates ss)._mdb.find name = none := by
  rw [ofUpdates_eq, find_setMetrics, List.lookup_eq_none_iff]
  intro e he
  obtain ⟨s, -, hs⟩ := List.mem_flatMap.mp (List.mem_reverse.mp he)
  obtain ⟨g, -, hg⟩ := List.mem_flatMap.mp hs
  rw [bne_iff_ne]
  rintro rfl
  exact h g (Snapshot.mem_names_of_mem_reading hg)

/-- Two databases hold the same exactly when what was last read of each group is the same. -/
theorem ofUpdates_mdb_eq_iff :
    (ofUpdates ss)._mdb = (ofUpdates ss')._mdb ↔ ∀ g, latest ss g = latest ss' g := by
  constructor
  · intro h g
    have hmap := map_find_ofUpdates ss g
    rw [h, map_find_ofUpdates] at hmap
    have hsome (vs : List Bytes) (hvs : (g.names.map fun _ => none) = vs.map some) : False := by
      cases g <;> cases vs <;> simp [Group.names] at hvs
    cases hss : latest ss g with
    | none =>
      cases hss' : latest ss' g with
      | none => rfl
      | some vs' =>
        rw [hss, hss'] at hmap
        exact (hsome vs' hmap.symm).elim
    | some vs =>
      cases hss' : latest ss' g with
      | none =>
        rw [hss, hss'] at hmap
        exact (hsome vs hmap).elim
      | some vs' =>
        rw [hss, hss'] at hmap
        exact congrArg some (List.map_injective_iff.mpr (Option.some_injective _) hmap).symm
  · intro h
    apply OrderedMap.ext_find
    intro name
    by_cases hname : ∃ g : Group, name ∈ g.names
    · obtain ⟨g, hg⟩ := hname
      have hmap : g.names.map (ofUpdates ss)._mdb.find = g.names.map (ofUpdates ss')._mdb.find := by
        rw [map_find_ofUpdates, map_find_ofUpdates, h]
      exact List.map_inj_left.mp hmap name hg
    · rw [find_ofUpdates_of_notMem (not_exists.mp hname),
        find_ofUpdates_of_notMem (not_exists.mp hname)]

/-- Two databases publish the same text exactly when they hold the same. -/
theorem ofUpdates_body_eq_iff :
    (ofUpdates ss).prepareAllMetricsBody = (ofUpdates ss').prepareAllMetricsBody ↔
      ∀ g, latest ss g = latest ss' g := by
  have hread (ss : List Snapshot) : readMetrics (ofUpdates ss).prepareAllMetricsBody =
      some (ofUpdates ss)._mdb.entries := by
    refine readMetrics_prepareAllMetricsBody ?_
    rw [ofUpdates_eq]
    apply publishable_entries
    intro e he
    obtain ⟨s, -, hs⟩ := List.mem_flatMap.mp he
    exact s.publishable_calls e hs
  rw [← ofUpdates_mdb_eq_iff]
  constructor
  · intro h
    have hentries := (hread ss).symm.trans ((congrArg readMetrics h).trans (hread ss'))
    exact OrderedMap.eq_of_entries (Option.some.inj hentries)
  · intro h
    rw [prepareAllMetricsBody, prepareAllMetricsBody, h]

end MetricDatabase

end MetricServer.Http
