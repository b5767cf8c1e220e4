import Mathlib.Data.List.DropRight
import Mathlib.Tactic

/-!
# The local cache of model files

`sync_gcs_to_local` names the cache directory of a URI by its last path segment, and skips the
`rsync` when `config.json` is there. A URI stands for a prefix of the remote store with a fixed
listing of files. An `rsync` copies all of them or fails after some of them.

A path of the local file system is the list of its components. The cache lists the copied files,
newest first, so that a file holds what was copied last (`read`).

`faithful_of_synced`: in a run in which `config.json` is only ever found where an `rsync` of the
same files has completed, and nothing was copied over them, every returned directory holds the files
of its URI. Two URIs that share a segment, or an `rsync` that failed after `config.json`, break this
(`cached_wrong_model`).
-/

namespace SsdTpu.ModelCache

abbrev Name := List Char

def configJson : Name := "config.json".toList

/-- The components of a local path, without `.` and `..`: a caller's `local_path` is taken to have
been resolved. -/
abbrev LocalPath := List Name

variable {Content : Type*}

/-! ## The store and the cache -/

/-- The files below a URI, each with its path relative to it. -/
structure Listing (Content : Type*) where
  files : List (LocalPath × Content)
  nodup : (files.map Prod.fst).Nodup

def isGcsPath (path : List Char) : Bool := "gs://".toList.isPrefixOf path

/-- A path that starts with `gs://`. -/
abbrev GcsUri := { path : List Char // isGcsPath path = true }

structure LocalCache (Content : Type*) where
  /-- Newest first. -/
  files : List (LocalPath × Content) := []
  dirs : List LocalPath := []

namespace LocalCache

def read (c : LocalCache Content) (path : LocalPath) : Option Content := c.files.lookup path

/-- `path.exists()`: a file, or a directory that was made for itself or for what is in it. -/
def pathExists (c : LocalCache Content) (path : LocalPath) : Bool :=
  c.files.any (fun f => path.isPrefixOf f.1) || c.dirs.any fun d => path.isPrefixOf d

/-- `path.mkdir(parents=True, exist_ok=True)`; it raises when the path or a parent is a file. -/
def mkdir (c : LocalCache Content) (path : LocalPath) : Option (LocalCache Content) :=
  if c.files.any fun f => f.1.isPrefixOf path then none
  else some { c with dirs := path :: c.dirs }

/-- Copy files into a directory. -/
def copy (c : LocalCache Content) (dir : LocalPath) (files : List (LocalPath × Content)) :
    LocalCache Content :=
  { c with files := files.map (fun f => (dir ++ f.1, f.2)) ++ c.files }

end LocalCache

/-- What an `rsync` would do: copy everything, or fail with the files of `keep` copied. -/
inductive Rsync where
  | complete
  | fails (keep : LocalPath → Bool)

/-- The files that the `rsync` copies. -/
def Rsync.copied (rsync : Rsync) (src : Listing Content) : List (LocalPath × Content) :=
  match rsync with
  | .complete => src.files
  | .fails keep => src.files.filter fun f => keep f.1

/-! ## The functions -/

/-- `root / name` as a directory: `.` and `..` are the root and its parent. -/
def joinName (root : LocalPath) (name : Name) : LocalPath :=
  if name = ['.'] then root
  else if name = ['.', '.'] then root.dropLast
  else root ++ [name]

/-- `gcs_path.rstrip("/").split("/")[-1]`. -/
def lastSegment (path : List Char) : Name :=
  (path.rdropWhile fun ch => ch = '/').rtakeWhile fun ch => ch ≠ '/'

def gcsToLocalCache (root : LocalPath) (gcsPath : GcsUri) : LocalPath :=
  joinName root (lastSegment gcsPath)

/-- The returned path is `none` when `mkdir` or the `rsync` raises. -/
def syncGcsToLocal (remote : GcsUri → Listing Content) (root : LocalPath) (c : LocalCache Content)
    (gcsPath : GcsUri) (localPath : Option LocalPath) (rsync : Rsync) :
    LocalCache Content × Option LocalPath :=
  let dir := localPath.getD (gcsToLocalCache root gcsPath)
  match c.mkdir dir with
  | none => (c, none)
  | some c =>
    if c.pathExists (dir ++ [configJson]) then (c, some dir)
    else
      let c := c.copy dir (rsync.copied (remote gcsPath))
      match rsync with
      | .complete => (c, some dir)
      | .fails _ => (c, none)

/-- A `gs://` path is handed to `sync_gcs_to_local`. -/
def resolveModelPath (remote : GcsUri → Listing Content) (root : LocalPath)
    (c : LocalCache Content) (path : GcsUri) (rsync : Rsync) :
    LocalCache Content × Option LocalPath :=
  syncGcsToLocal remote root c path none rsync

/-! ## Runs -/

/-- A call on a URI, with the outcome of its `rsync` if it comes to one. -/
inductive Call where
  | resolveModelPath (path : GcsUri) (rsync : Rsync)
  | syncGcsToLocal (gcsPath : GcsUri) (localPath : Option LocalPath) (rsync : Rsync)

namespace Call

def uri : Call → GcsUri
  | .resolveModelPath path _ => path
  | .syncGcsToLocal gcsPath _ _ => gcsPath

def rsync : Call → Rsync
  | .resolveModelPath _ rsync => rsync
  | .syncGcsToLocal _ _ rsync => rsync

/-- The directory the call is about. -/
def dir (root : LocalPath) : Call → LocalPath
  | .resolveModelPath path _ => gcsToLocalCache root path
  | .syncGcsToLocal gcsPath localPath _ => localPath.getD (gcsToLocalCache root gcsPath)

end Call

section Runs

variable (remote : GcsUri → Listing Content) (root : LocalPath)

def runCall (c : LocalCache Content) : Call → LocalCache Content × Option LocalPath
  | .resolveModelPath path rsync => resolveModelPath remote root c path rsync
  | .syncGcsToLocal gcsPath localPath rsync => syncGcsToLocal remote root c gcsPath localPath rsync

/-- The cache after a sequence of calls, from an empty one. -/
def cacheAfter (calls : List Call) : LocalCache Content :=
  calls.foldl (fun c call => (runCall remote root c call).1) {}

/-- The marker file of the directory is there once the directory is made. -/
def FindsMarker (c : LocalCache Content) (call : Call) : Prop :=
  ∃ c', c.mkdir (call.dir root) = some c' ∧
    c'.pathExists (call.dir root ++ [configJson]) = true

/-- The call comes to its `rsync`. -/
def Syncs (c : LocalCache Content) (call : Call) : Prop :=
  ∃ c', c.mkdir (call.dir root) = some c' ∧
    c'.pathExists (call.dir root ++ [configJson]) = false

/-- The directory holds every file of the listing with its content. -/
def HoldsFiles (c : LocalCache Content) (dir : LocalPath) (src : Listing Content) : Prop :=
  ∀ f ∈ src.files, c.read (dir ++ f.1) = some f.2

/-- Neither directory is in the other. -/
def Apart (dir dir' : LocalPath) : Prop := ¬ dir <+: dir' ∧ ¬ dir' <+: dir

/-- An earlier call has completed an `rsync` of the same files into the directory, and since then
every `rsync` was into a directory apart from it. -/
def Synced (before : List Call) (call : Call) : Prop :=
  ∃ b₁ first b₂, before = b₁ ++ first :: b₂ ∧ first.dir root = call.dir root ∧
    remote first.uri = remote call.uri ∧ first.rsync = .complete ∧
    Syncs root (cacheAfter remote root b₁) first ∧
    ∀ b₃ later b₄, b₂ = b₃ ++ later :: b₄ →
      Syncs root (cacheAfter remote root (b₁ ++ first :: b₃)) later →
        Apart (later.dir root) (call.dir root)

/-! ## One call -/

variable {remote root} {c c' : LocalCache Content} {call : Call} {dir dir' : LocalPath}
  {src : Listing Content}

theorem runCall_eq (c : LocalCache Content) (call : Call) : runCall remote root c call =
    match c.mkdir (call.dir root) with
    | none => (c, none)
    | some c' =>
      if c'.pathExists (call.dir root ++ [configJson]) then (c', some (call.dir root))
      else (c'.copy (call.dir root) (call.rsync.copied (remote call.uri)),
        match call.rsync with
        | .complete => some (call.dir root)
        | .fails _ => none) := by
  cases call with
  | resolveModelPath path rsync => cases rsync <;> rfl
  | syncGcsToLocal gcsPath localPath rsync => cases rsync <;> rfl

theorem mkdir_files (h : c.mkdir dir = some c') : c'.files = c.files := by
  unfold LocalCache.mkdir at h
  split_ifs at h
  obtain rfl := Option.some.inj h
  rfl

theorem runCall_files_of_syncs (h : Syncs root c call) : (runCall remote root c call).1.files =
    (c.copy (call.dir root) (call.rsync.copied (remote call.uri))).files := by
  obtain ⟨c', hm, hmark⟩ := h
  rw [runCall_eq, hm]
  simp only [hmark, Bool.false_eq_true, if_false]
  unfold LocalCache.copy
  rw [mkdir_files hm]

theorem runCall_files_of_marker (h : FindsMarker root c call) :
    (runCall remote root c call).1.files = c.files := by
  obtain ⟨c', hm, hmark⟩ := h
  rw [runCall_eq, hm]
  simp only [hmark, if_true]
  exact mkdir_files hm

theorem mkdir_cases (root : LocalPath) (c : LocalCache Content) (call : Call) :
    c.mkdir (call.dir root) = none ∨ FindsMarker root c call ∨ Syncs root c call := by
  cases hm : c.mkdir (call.dir root) with
  | none => exact .inl rfl
  | some c' =>
    cases hmark : c'.pathExists (call.dir root ++ [configJson]) with
    | true => exact .inr (.inl ⟨c', hm, hmark⟩)
    | false => exact .inr (.inr ⟨c', hm, hmark⟩)

theorem runCall_files (c : LocalCache Content) (call : Call) :
    (Syncs root c call ∧ (runCall remote root c call).1.files =
        (c.copy (call.dir root) (call.rsync.copied (remote call.uri))).files) ∨
      (runCall remote root c call).1.files = c.files := by
  rcases mkdir_cases root c call with hm | hmarker | hsyncs
  · rw [runCall_eq, hm]
    exact .inr rfl
  · exact .inr (runCall_files_of_marker hmarker)
  · exact .inl ⟨hsyncs, runCall_files_of_syncs hsyncs⟩

theorem runCall_files_of_complete (h : Syncs root c call) (hr : call.rsync = .complete) :
    (runCall remote root c call).1.files =
      (c.copy (call.dir root) (remote call.uri).files).files := by
  rw [runCall_files_of_syncs h, hr]
  rfl

/-- A call that returns found the marker, or its `rsync` completed. -/
theorem runCall_returns (h : (runCall remote root c call).2 = some dir) :
    dir = call.dir root ∧
      ((FindsMarker root c call ∧ (runCall remote root c call).1.files = c.files) ∨
        (runCall remote root c call).1.files =
          (c.copy (call.dir root) (remote call.uri).files).files) := by
  rcases mkdir_cases root c call with hm | hmarker | hsyncs
  · rw [runCall_eq, hm] at h
    cases h
  · have hfiles : (runCall remote root c call).1.files = c.files := runCall_files_of_marker hmarker
    obtain ⟨c', hm, hmark⟩ := hmarker
    rw [runCall_eq, hm] at h
    simp only [hmark, if_true, Option.some.injEq] at h
    exact ⟨h.symm, .inl ⟨⟨c', hm, hmark⟩, hfiles⟩⟩
  · have hcopied : call.rsync = .complete → (runCall remote root c call).1.files =
        (c.copy (call.dir root) (remote call.uri).files).files := runCall_files_of_complete hsyncs
    obtain ⟨c', hm, hmark⟩ := hsyncs
    rw [runCall_eq, hm] at h
    simp only [hmark, Bool.false_eq_true, if_false] at h
    cases hr : call.rsync with
    | fails keep => simp [hr] at h
    | complete =>
      simp only [hr, Option.some.injEq] at h
      exact ⟨h.symm, .inr (hcopied hr)⟩

/-! ## What a directory holds -/

theorem read_eq_of_files {path : LocalPath} (h : c'.files = c.files) :
    c'.read path = c.read path := by
  unfold LocalCache.read
  rw [h]

theorem HoldsFiles.of_files (hc : HoldsFiles c dir src) (h : c'.files = c.files) :
    HoldsFiles c' dir src := fun f hf => (read_eq_of_files h).trans (hc f hf)

theorem holdsFiles_copy (c : LocalCache Content) (dir : LocalPath) (src : Listing Content) :
    HoldsFiles (c.copy dir src.files) dir src := by
  intro f hf
  obtain ⟨before, after, hsplit⟩ := List.append_of_mem hf
  have hnodup := src.nodup
  rw [hsplit, List.map_append, List.map_cons, List.nodup_append] at hnodup
  unfold LocalCache.read LocalCache.copy
  simp only
  rw [List.lookup_eq_some_iff]
  refine ⟨before.map fun g => (dir ++ g.1, g.2), after.map (fun g => (dir ++ g.1, g.2)) ++ c.files,
    by rw [hsplit]; simp, fun g hg => ?_⟩
  -- a file listed before `f` has another path
  obtain ⟨g', hg', rfl⟩ := List.mem_map.mp hg
  have hne : g'.1 ≠ f.1 :=
    hnodup.2.2 g'.1 (List.mem_map_of_mem hg') f.1 List.mem_cons_self
  simpa using hne.symm

theorem HoldsFiles.copy (h : HoldsFiles c dir src) (hapart : Apart dir' dir)
    (files : List (LocalPath × Content)) : HoldsFiles (c.copy dir' files) dir src := by
  intro f hf
  have hnone : (files.map fun g => (dir' ++ g.1, g.2)).lookup (dir ++ f.1) = none := by
    rw [List.lookup_eq_none_iff]
    intro g hg
    obtain ⟨g, -, rfl⟩ := List.mem_map.mp hg
    simp only [bne_iff_ne, ne_eq]
    intro heq
    have hdir : dir <+: dir' ++ g.1 := heq ▸ List.prefix_append dir f.1
    exact (List.prefix_or_prefix_of_prefix (List.prefix_append dir' g.1) hdir).elim hapart.1
      hapart.2
  unfold LocalCache.read LocalCache.copy
  simp only
  rw [List.lookup_append, hnone, Option.none_or]
  exact h f hf

theorem cacheAfter_concat (before : List Call) (call : Call) :
    cacheAfter remote root (before ++ [call]) =
      (runCall remote root (cacheAfter remote root before) call).1 := by
  unfold cacheAfter
  rw [List.foldl_append]
  rfl

/-- The step lemma: a call that does not sync, or syncs into a directory apart, keeps the files. -/
theorem HoldsFiles.runCall (h : HoldsFiles c dir src)
    (hapart : Syncs root c call → Apart (call.dir root) dir) :
    HoldsFiles (ModelCache.runCall remote root c call).1 dir src := by
  rcases runCall_files c call with ⟨hsyncs, hfiles⟩ | hfiles
  · exact (h.copy (hapart hsyncs) _).of_files hfiles
  · exact h.of_files hfiles

/-- The run lemma, by induction on the later calls from the last one. -/
theorem HoldsFiles.cacheAfter {before later : List Call}
    (h : HoldsFiles (cacheAfter remote root before) dir src)
    (hlater : ∀ l₁ next l₂, later = l₁ ++ next :: l₂ →
      Syncs root (ModelCache.cacheAfter remote root (before ++ l₁)) next →
        Apart (next.dir root) dir) :
    HoldsFiles (ModelCache.cacheAfter remote root (before ++ later)) dir src := by
  induction later using List.reverseRecOn with
  | nil => rwa [List.append_nil]
  | append_singleton later call ih =>
    rw [← List.append_assoc, cacheAfter_concat]
    refine (ih fun l₁ next l₂ heq => ?_).runCall fun hsyncs => hlater later call [] rfl hsyncs
    exact hlater l₁ next (l₂ ++ [call]) (by rw [heq, List.append_assoc, List.cons_append])

theorem Synced.holdsFiles {before : List Call} (h : Synced remote root before call) :
    HoldsFiles (ModelCache.cacheAfter remote root before) (call.dir root) (remote call.uri) := by
  obtain ⟨b₁, first, b₂, rfl, hdir, hsame, hcomplete, hsyncs, hlater⟩ := h
  have hfirst : HoldsFiles (ModelCache.cacheAfter remote root (b₁ ++ [first])) (call.dir root)
      (remote call.uri) := by
    rw [cacheAfter_concat, ← hdir, ← hsame]
    exact (holdsFiles_copy _ _ _).of_files (runCall_files_of_complete hsyncs hcomplete)
  have hrest : HoldsFiles (ModelCache.cacheAfter remote root (b₁ ++ [first] ++ b₂)) (call.dir root)
      (remote call.uri) := by
    refine hfirst.cacheAfter fun l₁ next l₂ heq hsyncs' => hlater l₁ next l₂ heq ?_
    rwa [List.append_assoc, List.singleton_append] at hsyncs'
  rwa [List.append_assoc, List.singleton_append] at hrest

/-- **The model cache.** In a run of calls from an empty cache in which every call that finds
`config.json` in its directory comes after a completed `rsync` of the same files into it, with none
into an overlapping directory since, every directory that a call returns holds every file of the URI
with its content. -/
theorem faithful_of_synced (remote : GcsUri → Listing Content) (root : LocalPath)
    (calls : List Call) (hmeets : ∀ before call, before ++ [call] <+: calls →
      FindsMarker root (ModelCache.cacheAfter remote root before) call →
        Synced remote root before call) :
    ∀ before call dir, before ++ [call] <+: calls →
      (ModelCache.runCall remote root (ModelCache.cacheAfter remote root before) call).2 =
          some dir →
        HoldsFiles (ModelCache.cacheAfter remote root (before ++ [call])) dir
          (remote call.uri) := by
  intro before call dir hpre hret
  obtain ⟨rfl, ⟨hmarker, hfiles⟩ | hfiles⟩ := runCall_returns hret
  · rw [cacheAfter_concat]
    exact (hmeets before call hpre hmarker).holdsFiles.of_files hfiles
  · rw [cacheAfter_concat]
    exact (holdsFiles_copy _ _ _).of_files hfiles

end Runs

/-! ## Two URIs, and an interrupted copy -/

def modelA : GcsUri := ⟨"gs://a/m".toList, by decide⟩

def modelB : GcsUri := ⟨"gs://b/m".toList, by decide⟩

/-- Both models have a configuration and weights, with the contents 1 and 2. -/
def twoModels (uri : GcsUri) : Listing ℕ where
  files := if uri = modelA then [([configJson], 1), ([['w']], 1)]
    else [([configJson], 2), ([['w']], 2)]
  nodup := by split <;> decide

/-- After a copy of `gs://a/m`, the directory returned for `gs://b/m` holds the files of the
former. After a copy that failed with the configuration only, the next call for `gs://a/m` returns a
directory without the weights. -/
theorem cached_wrong_model :
    let first := Call.resolveModelPath modelA .complete
    let other := Call.resolveModelPath modelB .complete
    let broken := Call.resolveModelPath modelA (.fails fun path => path = [configJson])
    ((runCall twoModels [] (cacheAfter twoModels [] [first]) other).2 = some [['m']] ∧
        (cacheAfter twoModels [] [first, other]).read [['m'], ['w']] = some 1 ∧
        ([['w']], 2) ∈ (twoModels modelB).files) ∧
      (runCall twoModels [] (cacheAfter twoModels [] [broken]) first).2 = some [['m']] ∧
        (cacheAfter twoModels [] [broken, first]).read [['m'], ['w']] = none ∧
        ([['w']], 1) ∈ (twoModels modelA).files := by
  decide +kernel

theorem faithful_twice :
    ∃ c, c = cacheAfter twoModels [] [.resolveModelPath modelA .complete,
        .resolveModelPath modelA .complete] ∧ HoldsFiles c [['m']] (twoModels modelA) := by
  set call := Call.resolveModelPath modelA .complete with hcall
  refine ⟨_, rfl, faithful_of_synced twoModels [] [call, call] (fun before next hpre hfinds => ?_)
    [call] call [['m']] List.prefix_rfl (by decide +kernel)⟩
  obtain ⟨rest, hrest⟩ := hpre
  cases before with
  | nil =>
    -- an empty cache has no marker
    obtain ⟨rfl, -⟩ := List.cons.inj hrest
    obtain ⟨c', hm, hmark⟩ := hfinds
    obtain rfl := Option.some.inj hm
    exact absurd hmark (by decide +kernel)
  | cons b before =>
    obtain ⟨rfl, htail⟩ := List.cons.inj hrest
    cases before with
    | nil =>
      obtain ⟨rfl, -⟩ := List.cons.inj htail
      exact ⟨[], call, [], rfl, rfl, rfl, rfl, ⟨_, rfl, by decide +kernel⟩, by simp⟩
    | cons b' before =>
      have hlen := congrArg List.length htail
      simp at hlen

end SsdTpu.ModelCache
