import VaeDb.Server.Site

/-!
# The cache of downloaded objects

`read_s3` writes what it receives to a temporary file too, and moves that file over the
cached copy of the object when the download is complete.  A download that fails is answered
from the cached copy.

The cached copy is removed before the temporary file is moved, and `rename` does not work
between file systems.  If it fails, the cached copy is gone (`cache_survives_iff`).  As long
as files can be moved, what is cached stays cached over any sequence of reads
(`cached_of_reads`).

The files are a map from paths to contents.  What the surroundings decide is in `Outcomes`;
writing to a file that is open succeeds, and so does the question whether a file exists.
-/

namespace VaeDb.S3

/-! ## Files -/

/-- The files, by their paths. -/
abbrev Files := Str → Option Str

/-- `boost::filesystem::filesystem_error`. -/
structure FilesystemError where
  path : Str

/-- What happens while an object is read: whether the temporary file can be created, what is
received, with which status and error message the download ends, which files can be removed,
and whether the temporary file can be moved. -/
structure Outcomes where
  opens : Bool
  chunks : List Str
  statusOK : Bool
  message : Option Str
  removes : Str → Bool
  renames : Bool

/-- `object_cache_path`. -/
def objectCachePath (cachePath objectname : Str) : Str := cachePath ++ ("/" : Str) ++ objectname

theorem objectCachePath_injective (cachePath : Str) :
    Function.Injective (objectCachePath cachePath) := by
  intro name other h
  exact List.append_cancel_left h

/-- `boost::filesystem::remove`. -/
def remove (outcomes : Outcomes) (files : Files) (path : Str) : Except FilesystemError Files :=
  if outcomes.removes path then pure (Function.update files path none) else throw ⟨path⟩

/-- `boost::filesystem::rename`. -/
def rename (outcomes : Outcomes) (files : Files) (source target : Str) :
    Except FilesystemError Files :=
  if outcomes.renames then
    pure (Function.update (Function.update files target (files source)) source none)
  else throw ⟨source⟩

/-! ## `transfer` -/

/-- `transfer`; `received` is what is in `ss`, and `isOpen` says that `tempfs` is. -/
structure Transfer where
  failed : Bool
  isOpen : Bool
  cachename : Str
  tempname : Str
  received : Str
  errorMessage : Str
  objectname : Str

/-- The constructor of `transfer`. -/
def Transfer.new (cachePath objectname tempname : Str) (outcomes : Outcomes) (files : Files) :
    Transfer × Files :=
  ({ failed := false
     isOpen := outcomes.opens
     cachename := objectCachePath cachePath objectname
     tempname
     received := []
     errorMessage := "unknown error."
     objectname },
    if outcomes.opens then Function.update files tempname (some []) else files)

/-- `transfer::get_error`. -/
def Transfer.getError (transfer : Transfer) : Str :=
  ("Error reading " : Str) ++ transfer.objectname ++ (": " : Str) ++ transfer.errorMessage

/-- `transfer::commit_buffer`. -/
def commitBuffer (state : Transfer × Files) (bfr : Str) : Transfer × Files :=
  ({ state.1 with received := state.1.received ++ bfr },
    if state.1.isOpen then
      Function.update state.2 state.1.tempname
        ((state.2 state.1.tempname).map fun content => content ++ bfr)
    else state.2)

/-- `responseCompleteCallback`. -/
def responseCompleteCallback (outcomes : Outcomes) (transfer : Transfer) : Transfer :=
  { transfer with
    failed := transfer.failed || !outcomes.statusOK
    errorMessage := outcomes.message.getD transfer.errorMessage }

/-- `S3_get_object`: the data as it comes, and then that it is complete. -/
def getObject (outcomes : Outcomes) (state : Transfer × Files) : Transfer × Files :=
  let state := outcomes.chunks.foldl commitBuffer state
  (responseCompleteCallback outcomes state.1, state.2)

/-- `transfer::finalize`. -/
def finalize (outcomes : Outcomes) (state : Transfer × Files) :
    Except FilesystemError (Transfer × Files) :=
  if !state.1.isOpen then pure state
  else do
    let transfer := { state.1 with isOpen := false }
    if transfer.failed then
      let files ← remove outcomes state.2 transfer.tempname
      return (transfer, files)
    else
      let files ← remove outcomes state.2 transfer.cachename
      match rename outcomes files transfer.tempname transfer.cachename with
      | .ok files => return (transfer, files)
      | .error _ => return (transfer, files)

/-- `read_cache`. -/
def readCache (cachePath : Str) (files : Files) (objectname : Str) : Str :=
  (files (objectCachePath cachePath objectname)).getD []

/-- `transfer::get_value`. -/
def Transfer.getValue (cachePath : Str) (transfer : Transfer) (files : Files) : Str :=
  if !transfer.failed then transfer.received
  else if (files transfer.cachename).isSome then
    readCache cachePath files transfer.objectname
  else []

/-- `read_s3` up to `finalize`. -/
def fetch (cachePath objectname tempname : Str) (outcomes : Outcomes) (files : Files) :
    Except FilesystemError (Transfer × Files) :=
  finalize outcomes
    (getObject outcomes (Transfer.new cachePath objectname tempname outcomes files))

/-- `read_s3`: what it returns, and the files after it. -/
def readS3 (cachePath objectname tempname : Str) (outcomes : Outcomes) (files : Files) :
    Except FilesystemError (Str × Files) := do
  let (transfer, files) ← fetch cachePath objectname tempname outcomes files
  return (transfer.getValue cachePath files, files)

/-! ## What a read does -/

variable {cachePath objectname tempname : Str} {outcomes : Outcomes} {files after : Files}
  {transfer : Transfer}

/-- The chunks end up one after the other in memory and, if it is open, in the temporary
file. -/
theorem foldl_commitBuffer (chunks : List Str) (transfer : Transfer) (files : Files)
    (hopen : transfer.isOpen = true → files transfer.tempname = some transfer.received) :
    chunks.foldl commitBuffer (transfer, files) =
      ({ transfer with received := transfer.received ++ chunks.flatten },
        if transfer.isOpen then
          Function.update files transfer.tempname (some (transfer.received ++ chunks.flatten))
        else files) := by
  induction chunks generalizing transfer files with
  | nil =>
      have hsame : { transfer with received := transfer.received ++ ([] : List Str).flatten } =
          transfer := by simp
      rw [List.foldl_nil, hsame]
      split
      · next hisOpen =>
        rw [List.flatten_nil, List.append_nil, ← hopen hisOpen, Function.update_eq_self]
      · rfl
  | cons chunk chunks ih =>
      rw [List.foldl_cons, commitBuffer]
      cases hisOpen : transfer.isOpen with
      | false =>
          rw [ih _ _ (by simp [hisOpen])]
          simp [hisOpen]
      | true =>
          rw [ih _ _ (by simp [hopen hisOpen])]
          simp [hisOpen]

/-- What `get_object` leaves for `finalize`. -/
theorem getObject_new (cachePath objectname tempname : Str) (outcomes : Outcomes)
    (files : Files) :
    getObject outcomes (Transfer.new cachePath objectname tempname outcomes files) =
      ({ failed := !outcomes.statusOK
         isOpen := outcomes.opens
         cachename := objectCachePath cachePath objectname
         tempname
         received := outcomes.chunks.flatten
         errorMessage := outcomes.message.getD "unknown error."
         objectname },
        if outcomes.opens then Function.update files tempname (some outcomes.chunks.flatten)
        else files) := by
  unfold getObject Transfer.new
  rw [foldl_commitBuffer]
  · cases outcomes.opens with
    | false => simp [responseCompleteCallback]
    | true => simp [responseCompleteCallback]
  · intro hopens
    simp only at hopens
    simp [hopens]

/-- What a read leaves in the cache file, and in the `transfer` for `get_value`. -/
theorem fetch_cache (htemp : tempname ≠ objectCachePath cachePath objectname)
    (h : fetch cachePath objectname tempname outcomes files = .ok (transfer, after)) :
    after (objectCachePath cachePath objectname) =
      (if outcomes.opens ∧ outcomes.statusOK then
        if outcomes.renames then some outcomes.chunks.flatten else none
      else files (objectCachePath cachePath objectname)) ∧
    transfer.failed = !outcomes.statusOK ∧
    transfer.received = outcomes.chunks.flatten ∧
    transfer.cachename = objectCachePath cachePath objectname ∧
    transfer.objectname = objectname := by
  unfold fetch finalize at h
  rw [getObject_new] at h
  cases hopens : outcomes.opens with
  | false =>
      simp only [hopens, Bool.not_false, if_true, pure, Except.pure, Except.ok.injEq,
        Prod.mk.injEq] at h
      obtain ⟨rfl, rfl⟩ := h
      simp
  | true =>
      simp only [hopens, Bool.not_true, Bool.false_eq_true, if_false, if_true] at h
      cases hstatus : outcomes.statusOK with
      | false =>
          simp only [hstatus, Bool.not_false, if_true, remove] at h
          split at h
          · simp only [pure, Except.pure, bind, Except.bind, Except.ok.injEq,
              Prod.mk.injEq] at h
            obtain ⟨rfl, rfl⟩ := h
            simp [Function.update_of_ne htemp.symm]
          · cases h
      | true =>
          simp only [hstatus, Bool.not_true, Bool.false_eq_true, if_false, remove] at h
          split at h
          · cases hrenames : outcomes.renames with
            | false =>
                simp only [hrenames, rename, pure, Except.pure, bind, Except.bind, throw,
                  throwThe, MonadExceptOf.throw, Bool.false_eq_true, if_false, Except.ok.injEq,
                  Prod.mk.injEq] at h
                obtain ⟨rfl, rfl⟩ := h
                simp
            | true =>
                simp only [hrenames, rename, pure, Except.pure, bind, Except.bind, if_true,
                  Except.ok.injEq, Prod.mk.injEq] at h
                obtain ⟨rfl, rfl⟩ := h
                simp [Function.update_of_ne htemp, Function.update_of_ne htemp.symm]
          · cases h

/-- Only the cache file and the temporary file of a read change. -/
theorem fetch_other {path : Str} (hcache : path ≠ objectCachePath cachePath objectname)
    (htemp : path ≠ tempname)
    (h : fetch cachePath objectname tempname outcomes files = .ok (transfer, after)) :
    after path = files path := by
  unfold fetch finalize at h
  rw [getObject_new] at h
  have hopened : (if outcomes.opens then
      Function.update files tempname (some outcomes.chunks.flatten) else files) path =
      files path := by
    split
    · exact Function.update_of_ne htemp _ _
    · rfl
  generalize (if outcomes.opens then
    Function.update files tempname (some outcomes.chunks.flatten) else files) = opened at *
  have hremove {removed rest : Files} {name : Str} (hname : path ≠ name)
      (hrest : remove outcomes removed name = .ok rest) : rest path = removed path := by
    unfold remove at hrest
    split at hrest
    · obtain rfl := Except.ok.inj hrest
      exact Function.update_of_ne hname _ _
    · cases hrest
  cases hopens : outcomes.opens with
  | false =>
      simp only [hopens, Bool.not_false, if_true, pure, Except.pure, Except.ok.injEq,
        Prod.mk.injEq] at h
      rw [← h.2, hopened]
  | true =>
      simp only [hopens, Bool.not_true, Bool.false_eq_true, if_false] at h
      split at h
      · cases hrest : remove outcomes opened tempname with
        | error fault =>
            rw [hrest] at h
            cases h
        | ok rest =>
            rw [hrest] at h
            obtain ⟨-, rfl⟩ := Prod.mk.inj (Except.ok.inj h)
            rw [hremove htemp hrest, hopened]
      · cases hrest : remove outcomes opened (objectCachePath cachePath objectname) with
        | error fault =>
            rw [hrest] at h
            cases h
        | ok rest =>
            rw [hrest] at h
            simp only [bind, Except.bind, rename] at h
            cases hrenames : outcomes.renames with
            | false =>
                simp only [hrenames, Bool.false_eq_true, if_false] at h
                obtain ⟨-, rfl⟩ := Prod.mk.inj (Except.ok.inj h)
                rw [hremove hcache hrest, hopened]
            | true =>
                simp only [hrenames, if_true] at h
                obtain ⟨-, rfl⟩ := Prod.mk.inj (Except.ok.inj h)
                rw [Function.update_of_ne htemp, Function.update_of_ne hcache,
                  hremove hcache hrest, hopened]

/-- What a read returns. -/
theorem readS3_eq_ok {value : Str} (htemp : tempname ≠ objectCachePath cachePath objectname)
    (h : readS3 cachePath objectname tempname outcomes files = .ok (value, after)) :
    ∃ transfer, fetch cachePath objectname tempname outcomes files = .ok (transfer, after) ∧
      value = if outcomes.statusOK then outcomes.chunks.flatten
        else (after (objectCachePath cachePath objectname)).getD [] := by
  unfold readS3 at h
  cases hfetch : fetch cachePath objectname tempname outcomes files with
  | error fault =>
      rw [hfetch] at h
      cases h
  | ok state =>
      obtain ⟨transfer, rest⟩ := state
      rw [hfetch] at h
      obtain ⟨rfl, rfl⟩ := Prod.mk.inj (Except.ok.inj h)
      obtain ⟨-, hfailed, hreceived, hcachename, hobjectname⟩ := fetch_cache htemp hfetch
      refine ⟨transfer, rfl, ?_⟩
      unfold Transfer.getValue readCache
      rw [hfailed, hreceived, hcachename, hobjectname]
      cases outcomes.statusOK with
      | true => rfl
      | false => cases rest (objectCachePath cachePath objectname) <;> simp

/-! ## Whether the cache survives -/

/-- The cache file holds what it held, or a complete object. -/
def Keeps (cachePath objectname : Str) (outcomes : Outcomes) (files after : Files) : Prop :=
  after (objectCachePath cachePath objectname) = files (objectCachePath cachePath objectname) ∨
    (outcomes.statusOK = true ∧
      after (objectCachePath cachePath objectname) = some outcomes.chunks.flatten)

/-- What was cached before a read, or the object that it downloaded, is what a later read
returns whose download fails. -/
def StillRead (cachePath objectname : Str) (outcomes : Outcomes) (files after : Files) :
    Prop :=
  ∀ old, files (objectCachePath cachePath objectname) = some old →
    ∀ (tempname : Str) (later : Outcomes) (value : Str) (last : Files),
      tempname ≠ objectCachePath cachePath objectname → later.statusOK = false →
      readS3 cachePath objectname tempname later after = .ok (value, last) →
      value = old ∨ (outcomes.statusOK = true ∧ value = outcomes.chunks.flatten)

/-- A read keeps what is cached unless there is a cached copy, the object is downloaded
completely, and its temporary file cannot be moved. -/
theorem cache_survives_iff {value : Str}
    (htemp : tempname ≠ objectCachePath cachePath objectname)
    (h : readS3 cachePath objectname tempname outcomes files = .ok (value, after)) :
    Keeps cachePath objectname outcomes files after ∧
      StillRead cachePath objectname outcomes files after ↔
    ¬ ((files (objectCachePath cachePath objectname)).isSome ∧ outcomes.opens ∧
      outcomes.statusOK ∧ outcomes.renames = false) := by
  obtain ⟨transfer, hfetch, -⟩ := readS3_eq_ok htemp h
  have hcache := (fetch_cache htemp hfetch).1
  have hstill (hkeeps : Keeps cachePath objectname outcomes files after) :
      StillRead cachePath objectname outcomes files after := by
    intro old hold latertemp later latervalue last hlatertemp hfails hlater
    obtain ⟨_, hlaterfetch, rfl⟩ := readS3_eq_ok hlatertemp hlater
    have hlast := (fetch_cache hlatertemp hlaterfetch).1
    rw [if_neg (by simp [hfails])] at hlast
    rw [hfails, hlast]
    rcases hkeeps with hsame | ⟨hstatus, hcomplete⟩
    · exact Or.inl (by simp [hsame, hold])
    · exact Or.inr ⟨hstatus, by simp [hcomplete]⟩
  constructor
  · rintro ⟨hkeeps, -⟩ ⟨hold, hopens, hstatus, hrenames⟩
    obtain ⟨old, hold⟩ := Option.isSome_iff_exists.1 hold
    have hlost : after (objectCachePath cachePath objectname) = none := by
      rw [hcache, if_pos ⟨hopens, hstatus⟩, hrenames]
      rfl
    rcases hkeeps with hsame | ⟨-, hcomplete⟩
    · rw [hlost, hold] at hsame
      cases hsame
    · rw [hlost] at hcomplete
      cases hcomplete
  · intro hlost
    have hkeeps : Keeps cachePath objectname outcomes files after := by
      by_cases hdownloaded : outcomes.opens ∧ outcomes.statusOK
      · rw [if_pos hdownloaded] at hcache
        cases hrenames : outcomes.renames with
        | true => exact Or.inr ⟨hdownloaded.2, by rw [hcache, hrenames]; rfl⟩
        | false =>
            rw [hrenames] at hcache
            have hold : files (objectCachePath cachePath objectname) = none := by
              by_contra hsome
              exact hlost ⟨Option.isSome_iff_ne_none.2 hsome, hdownloaded.1, hdownloaded.2,
                hrenames⟩
            exact Or.inl (hcache.trans hold.symm)
      · rw [if_neg hdownloaded] at hcache
        exact Or.inl hcache
    exact ⟨hkeeps, hstill hkeeps⟩

/-- A cached `old` feed. -/
def cachedOld : Files := Function.update (fun _ => none) "/cache/feed" (some "old")

/-- A `new` feed is downloaded; whether its file can be moved. -/
def downloads (renames : Bool) : Outcomes where
  opens := true
  chunks := ["ne", "w"]
  statusOK := true
  message := none
  removes := fun _ => true
  renames := renames

/-- Nothing is received. -/
def offline : Outcomes := { downloads true with chunks := [], statusOK := false }

theorem cache_survives_iff_downloads :
    ∃ after, readS3 "/cache" "feed" "/tmp/vaedb-1" (downloads true) cachedOld =
        .ok ("new", after) ∧
      Keeps "/cache" "feed" (downloads true) cachedOld after ∧
      StillRead "/cache" "feed" (downloads true) cachedOld after := by
  have htemp : ("/tmp/vaedb-1" : Str) ≠ objectCachePath "/cache" "feed" := by decide
  refine ⟨_, rfl, ?_⟩
  exact (cache_survives_iff htemp rfl).2 fun hlost => Bool.noConfusion hlost.2.2.2

/-- With the temporary file on another file system the cached feed is lost, and the next
read, whose download fails, returns nothing. -/
theorem cached_copy_lost :
    ∃ after last, cachedOld "/cache/feed" = some "old" ∧
      readS3 "/cache" "feed" "/tmp/vaedb-1" (downloads false) cachedOld =
        .ok ("new", after) ∧
      after "/cache/feed" = none ∧
      readS3 "/cache" "feed" "/tmp/vaedb-2" offline after = .ok ([], last) :=
  ⟨_, _, rfl, rfl, rfl, rfl⟩

/-! ## Many reads -/

/-- An object that is read, the name of the temporary file, and what happens meanwhile. -/
structure Read where
  objectname : Str
  tempname : Str
  outcomes : Outcomes

/-- Reads one after the other. -/
def readAll (cachePath : Str) (reads : List Read) (files : Files) :
    Except FilesystemError Files :=
  reads.foldlM (fun files read => do
    let result ← readS3 cachePath read.objectname read.tempname read.outcomes files
    return result.2) files

/-- While files can be moved, an object that is cached stays cached: as it was, or as one of
the reads downloaded it. -/
theorem cached_of_reads {reads : List Read}
    (hrenames : ∀ read ∈ reads, read.outcomes.renames = true)
    (htemp : ∀ read ∈ reads, ∀ name, read.tempname ≠ objectCachePath cachePath name)
    (h : readAll cachePath reads files = .ok after) {content : Str}
    (hcached : files (objectCachePath cachePath objectname) = some content) :
    ∃ kept, after (objectCachePath cachePath objectname) = some kept ∧
      (kept = content ∨ ∃ read ∈ reads, read.objectname = objectname ∧
        read.outcomes.statusOK = true ∧ kept = read.outcomes.chunks.flatten) := by
  induction reads generalizing files content with
  | nil =>
      obtain rfl := Except.ok.inj h
      exact ⟨content, hcached, Or.inl rfl⟩
  | cons read reads ih =>
      have hrestRenames := fun other hother => hrenames other (List.mem_cons_of_mem _ hother)
      have hrestTemp := fun other hother => htemp other (List.mem_cons_of_mem _ hother)
      unfold readAll at h
      rw [List.foldlM_cons] at h
      cases hread : readS3 cachePath read.objectname read.tempname read.outcomes files with
      | error fault =>
          rw [hread] at h
          cases h
      | ok result =>
          obtain ⟨value, next⟩ := result
          rw [hread] at h
          have hname := htemp read (List.mem_cons_self ..)
          obtain ⟨_, hfetch, -⟩ := readS3_eq_ok (hname read.objectname) hread
          by_cases hsame : objectname = read.objectname
          · subst hsame
            have hnext := (fetch_cache (hname _) hfetch).1
            rw [hrenames read (List.mem_cons_self ..), if_pos rfl, hcached] at hnext
            split at hnext
            · next hdownloaded =>
              obtain ⟨kept, hkept, hfrom⟩ := ih hrestRenames hrestTemp h hnext
              refine ⟨kept, hkept, Or.inr ?_⟩
              rcases hfrom with rfl | ⟨other, hother, hfrom⟩
              · exact ⟨read, List.mem_cons_self .., rfl, hdownloaded.2, rfl⟩
              · exact ⟨other, List.mem_cons_of_mem _ hother, hfrom⟩
            · obtain ⟨kept, hkept, hfrom⟩ := ih hrestRenames hrestTemp h hnext
              refine ⟨kept, hkept, hfrom.imp id ?_⟩
              rintro ⟨other, hother, hfrom⟩
              exact ⟨other, List.mem_cons_of_mem _ hother, hfrom⟩
          · have hother := fetch_other
              (fun hpath => hsame (objectCachePath_injective cachePath hpath))
              (hname objectname).symm hfetch
            obtain ⟨kept, hkept, hfrom⟩ := ih hrestRenames hrestTemp h (hother.trans hcached)
            refine ⟨kept, hkept, hfrom.imp id ?_⟩
            rintro ⟨other, hmem, hfrom⟩
            exact ⟨other, List.mem_cons_of_mem _ hmem, hfrom⟩

/-! ## What the server sees -/

/-- A `transfer` after `finalize`, as the model of the server has it. -/
def Transfer.toServer (transfer : Transfer) (files : Files) (version : ℕ) : Server.Transfer where
  failed := transfer.failed
  received := ⟨transfer.received, version⟩
  cacheFile := (files transfer.cachename).map fun content => ⟨content, version⟩

/-- `get_value` is the same there. -/
theorem getValue_toServer (htemp : tempname ≠ objectCachePath cachePath objectname)
    (h : fetch cachePath objectname tempname outcomes files = .ok (transfer, after))
    (version : ℕ) :
    (transfer.toServer after version).getValue.content =
      transfer.getValue cachePath after := by
  obtain ⟨-, -, -, hcachename, hobjectname⟩ := fetch_cache htemp h
  unfold Transfer.toServer Server.Transfer.getValue Transfer.getValue readCache
  rw [hobjectname, ← hcachename]
  cases transfer.failed with
  | false => rfl
  | true => cases after transfer.cachename <;> rfl

end VaeDb.S3
