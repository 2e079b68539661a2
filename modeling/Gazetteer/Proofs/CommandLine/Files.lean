import Gazetteer.CommandLine.Run
import Gazetteer.Proofs.Catalog.Versions
import Gazetteer.Proofs.Partition.Consistency

/-! Partitions in files and in memory. The files that a dataset is built into are written one after
another, so each holds the last partition of its name. What is registered from them is compared with
what is registered from the dataset itself. -/
namespace Gazetteer

/-- Files by their paths. Every directory is there, and every file can be written. -/
abbrev FileMap := String → Option Bytes

def FileMap.system : FileSystem (StateM FileMap) where
  read := fun path => return (← get) path
  makeDirectory := fun _ => return true
  write := fun path bytes => do
    modify fun files => Function.update files path (some bytes)
    return true

namespace Command
open Gazetteer.Partition

def pathFor (out name : String) : String := pathIn out (name ++ ".mwm")

section
variable {out name name' : String}

private theorem startsWith_of_plain (h : '/' ∉ name.toList) :
    (name ++ ".mwm").startsWith "/" = false := by
  rw [Bool.eq_false_iff, ne_eq, String.startsWith_string_iff]
  intro hslash
  have : '/' ∈ (name ++ ".mwm").toList := hslash.subset (by simp)
  simp [h] at this

private theorem pathFor_inj (h : '/' ∉ name.toList) (h' : '/' ∉ name'.toList)
    (heq : pathFor out name = pathFor out name') : name = name' := by
  simp only [pathFor, pathIn, startsWith_of_plain h, startsWith_of_plain h', Bool.false_eq_true,
    if_false] at heq
  have hfile : name ++ ".mwm" = name' ++ ".mwm" := by
    split at heq
    · simpa [← String.toList_inj] using heq
    · simpa [← String.toList_inj] using heq
  simpa [← String.toList_inj] using hfile

end

section
variable {out : String} {ps : List Partition} {files : FileMap} {name : String}

/-- The files after some partitions are written into a directory. -/
def written (out : String) (files : FileMap) (ps : List Partition) : FileMap :=
  ps.foldl (fun files p => Function.update files (pathFor out p.name) (some p.encode)) files

private theorem run_writeAll (out : String) (ps : List Partition) (files : FileMap) :
    (writeAll FileMap.system out ps).run.run files = (.ok (), written out files ps) := by
  induction ps generalizing files with
  | nil => rfl
  | cons p ps ih => exact ih _

private theorem written_pathFor (hplain : ∀ p ∈ ps, '/' ∉ p.name.toList) {p : Partition}
    (hp : p ∈ latest name ps) : written out files ps (pathFor out name) = some p.encode := by
  -- From the end, as the last write of a path is the one that counts.
  induction ps using List.reverseRecOn with
  | nil => cases hp
  | append_singleton ps q ih =>
    rw [written, List.foldl_append, List.foldl_cons, List.foldl_nil, ← written]
    by_cases hname : q.name = name
    · rw [latest, named_append_of_eq hname, List.getLast?_concat] at hp
      cases hp
      rw [hname, Function.update_self]
    · rw [latest, named_append_of_ne hname] at hp
      have hpath : pathFor out name ≠ pathFor out q.name := fun heq => by
        obtain ⟨hmem, rfl⟩ := mem_of_mem_latest hp
        exact hname (pathFor_inj (hplain p (List.mem_append_left _ hmem))
          (hplain q (by simp)) heq).symm
      rw [Function.update_of_ne hpath]
      exact ih (fun r hr => hplain r (List.mem_append_left _ hr)) hp

end

section
variable {dataset out text : String} {files : FileMap} {drafts : List Draft} {ps : List Partition}

private theorem run_readDataset
    (htext : (files dataset).bind (fun bytes => String.fromUTF8? ⟨bytes.toArray⟩) = some text)
    (hparse : Dataset.parse text = .ok drafts) :
    (readDataset FileMap.system dataset).run.run files = (.ok drafts, files) := by
  have hread : (liftM (readText FileMap.system dataset) :
      ExceptT PartitionError (StateM FileMap) _).run.run files = (.ok (some text), files) := by
    change (Except.ok ((files dataset).bind _), files) = _
    rw [htext]
  rw [readDataset]
  refine (run_bind_of_ok hread _).trans ?_
  change (Dataset.parse text, files) = _
  rw [hparse]

variable (hread : (readDataset FileMap.system dataset).run.run files = (.ok drafts, files))
  (hbuild : Dataset.build drafts = .ok ps)

include hbuild in
private theorem run_build :
    (liftM (Dataset.build drafts) : ExceptT PartitionError (StateM FileMap) _).run.run files =
      (.ok ps, files) := by
  rw [hbuild]
  rfl

include hread hbuild

/-- Building a dataset into files writes one partition after another. -/
theorem run_runBuild :
    (runBuild FileMap.system dataset out).run.run files = (.ok (), written out files ps) := by
  rw [runBuild, run_bind_of_ok (run_adapt_of_ok hread _)]
  have hmade : (liftM (FileMap.system.makeDirectory out) :
      ExceptT CommandFailure (StateM FileMap) _).run.run files = (.ok true, files) := rfl
  rw [run_bind_of_ok hmade]
  refine run_adapt_of_ok ?_ _
  rw [run_bind_of_ok (run_build hbuild)]
  exact run_writeAll out ps files

/-- The catalog of a dataset registers its partitions in their order. -/
theorem run_readCatalog_dataset :
    (readCatalog FileMap.system [dataset] []).run.run files =
      (.ok (Catalog.empty.registerAll ps), files) := by
  have hbuilt : (datasetPartitions FileMap.system [dataset]).run.run files = (.ok ps, files) := by
    have hone : ∀ path ∈ [dataset], (do
        let drafts ← readDataset FileMap.system path
        Dataset.build drafts : ExceptT PartitionError (StateM FileMap) _).run.run files =
          (.ok ((fun _ => ps) path), files) := by
      intro path hpath
      cases List.mem_singleton.mp hpath
      rw [run_bind_of_ok hread]
      exact run_build hbuild
    rw [datasetPartitions, run_bind_of_ok (run_mapM hone), List.map_singleton,
      List.flatten_singleton]
    rfl
  have hnone : ([].mapM (readPartition FileMap.system)).run.run files = (.ok [], files) := rfl
  rw [readCatalog, run_bind_of_ok hbuilt, run_bind_of_ok hnone, List.append_nil]
  rfl

omit hread hbuild in
/-- The catalog of files registers the partitions in them, in the order of the files. -/
theorem run_readCatalog_files {paths : List String} {qs : List Partition}
    (h : (paths.mapM (readPartition FileMap.system)).run.run files = (.ok qs, files)) :
    (readCatalog FileMap.system [] paths).run.run files =
      (.ok (Catalog.empty.registerAll qs), files) := by
  have hnone : (datasetPartitions FileMap.system []).run.run files = (.ok [], files) := rfl
  rw [readCatalog, run_bind_of_ok hnone, run_bind_of_ok h]
  rfl

end

section
variable {out : String} {files : FileMap} {ps : List Partition}

private theorem ofFile_some (bytes : Bytes) : ofFile (some bytes) = decode bytes := rfl

private theorem run_readPartition (files : FileMap) (path : String) :
    (readPartition FileMap.system path).run.run files = (ofFile (files path), files) := rfl

private theorem run_read_written (hplain : ∀ p ∈ ps, '/' ∉ p.name.toList)
    (hdecode : ∀ p ∈ ps, decode p.encode = .ok p) :
    ((ps.map fun p => pathIn out (fileName p)).mapM (readPartition FileMap.system)).run.run
        (written out files ps) = (.ok (overwritten ps), written out files ps) := by
  rw [List.mapM_map]
  refine run_mapM fun p hp => ?_
  obtain ⟨q, hlatest, hq⟩ := exists_latest hp
  have hpath : pathIn out (fileName p) = pathFor out p.name := rfl
  rw [Function.comp_apply, run_readPartition, hpath, written_pathFor hplain hlatest, ofFile_some,
    hdecode q hq, hlatest, Option.getD_some]

end

section
variable {dataset text : String} {files : FileMap} {drafts : List Draft} {ps : List Partition}
  (htext : (files dataset).bind (fun bytes => String.fromUTF8? ⟨bytes.toArray⟩) = some text)
  (hparse : Dataset.parse text = .ok drafts) (hbuild : Dataset.build drafts = .ok ps)
  (hplain : ∀ p ∈ ps, '/' ∉ p.name.toList) (hstorable : ∀ p ∈ ps, p.Storable)
include htext hparse hbuild hplain hstorable

private theorem exists_catalogs_of_build (out : String) :
    ∃ after, (runBuild FileMap.system dataset out).run.run files = (.ok (), after) ∧
      (readCatalog FileMap.system [] (ps.map fun p => pathIn out (fileName p))).run.run after =
        (.ok (Catalog.empty.registerAll (overwritten ps)), after) ∧
      (readCatalog FileMap.system [dataset] []).run.run files =
        (.ok (Catalog.empty.registerAll ps), files) := by
  have hread := run_readDataset htext hparse
  have hdecode : ∀ p ∈ ps, decode p.encode = .ok p := fun p hp =>
    have ⟨_, _, hfinish⟩ := exists_ok_of_mem_mapM hbuild hp
    decode_encode_of_finish hfinish (hstorable p hp)
  exact ⟨_, run_runBuild hread hbuild, run_readCatalog_files (run_read_written hplain hdecode),
    run_readCatalog_dataset hread hbuild⟩

/-- A dataset that is built into files is found in them just as it is built in memory if and only
if, for each name, the last partition is the first of the greatest version. For a file holds the
last partition of its name, while a catalog keeps the first of the greatest version. So there is no
difference if all names are different. -/
theorem catalogs_of_build (out : String) :
    ∃ after stored built,
      (runBuild FileMap.system dataset out).run.run files = (.ok (), after) ∧
      (readCatalog FileMap.system [] (ps.map fun p => pathIn out (fileName p))).run.run after =
        (.ok stored, after) ∧
      (readCatalog FileMap.system [dataset] []).run.run files = (.ok built, files) ∧
      stored.registrations.map (·.partition) = (namesOf ps).filterMap (latest · ps) ∧
      built.registrations.map (·.partition) = (namesOf ps).filterMap (newest · ps) ∧
      (stored.registrations.map (·.partition) = built.registrations.map (·.partition) ↔
        ∀ name ∈ namesOf ps, latest name ps = newest name ps) ∧
      ((ps.map (·.name)).Nodup →
        stored.registrations.map (·.partition) = built.registrations.map (·.partition)) := by
  obtain ⟨after, hwrite, hstored, hbuilt⟩ :=
    exists_catalogs_of_build htext hparse hbuild hplain hstorable out
  refine ⟨after, _, _, hwrite, hstored, hbuilt, ?_, ?_, ?_, fun hnodup => ?_⟩
  · exact Catalog.partitions_registerAll_overwritten ps
  · exact Catalog.partitions_registerAll ps
  · exact Catalog.partitions_overwritten_eq_iff ps
  · exact (Catalog.partitions_overwritten_eq_iff ps).mpr fun name _ =>
      latest_eq_newest_of_nodup hnodup name

end

def fileWith (path text : String) : FileMap :=
  Function.update (fun _ => none) path (some text.toUTF8.data.toList)

private theorem text_fileWith (path text : String) :
    (fileWith path text path).bind (fun bytes => String.fromUTF8? ⟨bytes.toArray⟩) = some text := by
  rw [fileWith, Function.update_self, Option.bind_some, MessagePack.fromUTF8?_toUTF8]

private theorem exists_of_built (text : String) (check : List Partition → Bool)
    (h : (Dataset.parse text >>= Dataset.build).toOption.any check = true) :
    ∃ drafts ps, Dataset.parse text = .ok drafts ∧ Dataset.build drafts = .ok ps ∧
      check ps = true := by
  cases hbuilt : Dataset.parse text >>= Dataset.build with
  | error e =>
    rw [hbuilt] at h
    cases h
  | ok ps =>
    rw [hbuilt] at h
    obtain ⟨drafts, hparse, hbuild⟩ := exists_of_bind hbuilt
    exact ⟨drafts, ps, hparse, hbuild, h⟩

/-- A dataset of two towns with one name, the first of a newer version. -/
def twoTowns : String :=
  "[[mwm]]\nname=\"Town\"\nversion=2\n[[mwm.poi]]\nx=0.0\ny=0.0\nname=\"A\"\n" ++
    "[[mwm]]\nname=\"Town\"\n[[mwm.poi]]\nx=0.0\ny=0.0\nname=\"B\"\n"

private theorem twoTowns_built :
    ∃ drafts ps, Dataset.parse twoTowns = .ok drafts ∧ Dataset.build drafts = .ok ps ∧
      (∀ p ∈ ps, '/' ∉ p.name.toList) ∧ (∀ p ∈ ps, p.Storable) ∧
      ps.map (fun p => pathIn "out" (fileName p)) = ["out/Town.mwm", "out/Town.mwm"] ∧
      ¬ ∀ name ∈ namesOf ps, latest name ps = newest name ps := by
  obtain ⟨drafts, ps, hparse, hbuild, hps⟩ := exists_of_built twoTowns
    (fun ps => decide ((∀ p ∈ ps, '/' ∉ p.name.toList) ∧ (∀ p ∈ ps, p.Storable) ∧
      ps.map (fun p => pathIn "out" (fileName p)) = ["out/Town.mwm", "out/Town.mwm"] ∧
      ∃ name ∈ namesOf ps, (latest name ps).map (·.header.version) = some 1 ∧
        (newest name ps).map (·.header.version) = some 2))
    (by decide +kernel)
  obtain ⟨hplain, hstorable, hpaths, name, hname, hlatest, hnewest⟩ := of_decide_eq_true hps
  refine ⟨drafts, ps, hparse, hbuild, hplain, hstorable, hpaths, fun hsame => ?_⟩
  rw [hsame name hname, hnewest] at hlatest
  exact absurd hlatest (by decide)

/-- In the file there is the older town. -/
theorem catalogs_of_build_twoTowns :
    ∃ after stored built,
      (runBuild FileMap.system "d" "out").run.run (fileWith "d" twoTowns) = (.ok (), after) ∧
      (readCatalog FileMap.system [] ["out/Town.mwm", "out/Town.mwm"]).run.run after =
        (.ok stored, after) ∧
      (readCatalog FileMap.system ["d"] []).run.run (fileWith "d" twoTowns) =
        (.ok built, fileWith "d" twoTowns) ∧
      stored.registrations.map (·.partition) ≠ built.registrations.map (·.partition) := by
  obtain ⟨drafts, ps, hparse, hbuild, hplain, hstorable, hpaths, hdiffer⟩ := twoTowns_built
  obtain ⟨after, stored, built, hwrite, hstored, hbuilt, -, -, hiff, -⟩ :=
    catalogs_of_build (text_fileWith "d" twoTowns) hparse hbuild hplain hstorable "out"
  rw [hpaths] at hstored
  exact ⟨after, stored, built, hwrite, hstored, hbuilt, fun hsame => hdiffer (hiff.mp hsame)⟩

/-- So datasets are there of which the files do not tell what is built in memory. -/
theorem catalogs_of_build_differ :
    ¬ ∀ (dataset out text : String) (files after : FileMap) (drafts : List Draft)
      (ps : List Partition) (stored built : Catalog),
      (files dataset).bind (fun bytes => String.fromUTF8? ⟨bytes.toArray⟩) = some text →
      Dataset.parse text = .ok drafts → Dataset.build drafts = .ok ps →
      (∀ p ∈ ps, '/' ∉ p.name.toList) → (∀ p ∈ ps, p.Storable) →
      (runBuild FileMap.system dataset out).run.run files = (.ok (), after) →
      (readCatalog FileMap.system [] (ps.map fun p => pathIn out (fileName p))).run.run after =
        (.ok stored, after) →
      (readCatalog FileMap.system [dataset] []).run.run files = (.ok built, files) →
      stored.registrations.map (·.partition) = built.registrations.map (·.partition) := by
  intro hclaim
  obtain ⟨drafts, ps, hparse, hbuild, hplain, hstorable, -, hdiffer⟩ := twoTowns_built
  have htext := text_fileWith "d" twoTowns
  obtain ⟨after, hwrite, hstored, hbuilt⟩ :=
    exists_catalogs_of_build htext hparse hbuild hplain hstorable "out"
  have hsame := hclaim _ _ _ _ _ _ _ _ _ htext hparse hbuild hplain hstorable hwrite hstored hbuilt
  exact hdiffer ((Catalog.partitions_overwritten_eq_iff ps).mp hsame)

end Command
end Gazetteer
