import VaeDb.Library.Isolation
import VaeDb.S3.FeedCache

/-!
# Transfers at the same time

Sites in staging mode and in production read the same object, and every request that opens a
session may: several transfers of one object work on one cached copy.  Here the steps of the
transfers interleave.  A name is a link to a file, and a file that is open stays what it is when
its name is removed or given to another one; a copy is read block by block.

A transfer writes to a file of its own, closes it, and then gives it the name of the cached copy.
So a file is never written while it is the cached copy, nor after that: what is read from it is
what one transfer has left there, as a whole (`read_whole`).  But between the `remove` and the
`rename` of one transfer there is no cached copy, and another transfer whose download fails in that
moment finds nothing.

`commit_buffer` does not look at what becomes of its writes: where one fails, the file has not all
of the version, and is cached all the same.  `remove` and `exists` throw for every error but that
there is no such file.  Reading a file that is open does not fail here.

`unique_path` gives every transfer a name that nobody else uses.  A transfer that nothing comes
between does to the files what `S3.readS3` does (`readS3_alone`).
-/

namespace VaeDb.S3.Transfers

open Threads

/-! ## Files and names -/

/-- The files, by numbers: what is in them, and who has them open for writing.  A name is a link
to a file. -/
structure Disk (Client : Type) where
  names : Str → Option ℕ
  contents : ℕ → Str
  writer : ℕ → Option Client
  unused : ℕ

/-- Code that works on files. -/
abbrev Code (Client : Type) := Throwing FilesystemError (Disk Client)

section

variable {Client : Type}

/-- Open a new file for writing. -/
def create (me : Client) (path : Str) : Code Client ℕ :=
  ExceptT.mk (Program.step fun disk => (.ok disk.unused,
    { names := Function.update disk.names path (some disk.unused)
      contents := Function.update disk.contents disk.unused []
      writer := Function.update disk.writer disk.unused (some me)
      unused := disk.unused + 1 }))

/-- Write to a file that is open. -/
def append (file : ℕ) (bfr : Str) : Code Client Unit :=
  Throwing.write fun disk =>
    { disk with contents := Function.update disk.contents file (disk.contents file ++ bfr) }

/-- Close it. -/
def close (file : ℕ) : Code Client Unit :=
  Throwing.write fun disk => { disk with writer := Function.update disk.writer file none }

/-- `boost::filesystem::remove`. -/
def remove (outcomes : Outcomes) (path : Str) : Code Client Unit :=
  if outcomes.removes path then
    Throwing.write fun disk => { disk with names := Function.update disk.names path none }
  else throw ⟨path⟩

/-- `boost::filesystem::rename`, in one step, with what is made of its exception. -/
def rename (outcomes : Outcomes) (source target : Str) : Code Client Unit :=
  if outcomes.renames then
    Throwing.write fun disk =>
      { disk with
        names := Function.update (Function.update disk.names target (disk.names source)) source
          none }
  else pure ()

/-- `boost::filesystem::exists`. -/
def fileExists (examines : Bool) (path : Str) : Code Client Bool :=
  if examines then Throwing.read fun disk => (disk.names path).isSome else throw ⟨path⟩

/-- Read an open file from a position on: some blocks of the given sizes, and what is left. -/
def readBlocks (file position : ℕ) : List ℕ → Code Client Str
  | [] => Throwing.read fun disk => (disk.contents file).drop position
  | size :: sizes => do
      let block ← Throwing.read fun disk => ((disk.contents file).drop position).take size
      let rest ← readBlocks file (position + size) sizes
      return block ++ rest

/-- `read_cache`; an `ifstream` that could not be opened gives nothing. -/
def readCache (path : Str) (sizes : List ℕ) : Code Client Str := do
  let opened ← Throwing.read fun disk => disk.names path
  match opened with
  | some file => readBlocks file 0 sizes
  | none => return []

/-! ## `read_s3` -/

/-- The files' names: where objects are cached, and which name every client gets from
`unique_path`. -/
structure Paths (Client : Type) where
  cachePath : Str
  uniquePath : Client → Str
  injective : Function.Injective uniquePath
  apart : ∀ client objectname, uniquePath client ≠ objectCachePath cachePath objectname

/-- A call of `read_s3`: the object, what its surroundings decide, what of the chunks gets into the
temporary file, whether it can be found out that there is a cached copy, and how that is read.  A
download that succeeds has delivered a version of the object. -/
structure Request (versions : Str → Set Str) where
  objectname : Str
  outcomes : Outcomes
  written : List Str
  examines : Bool
  sizes : List ℕ
  complete : outcomes.statusOK = true → outcomes.chunks.flatten ∈ versions objectname

/-- `transfer::finalize` for a transfer whose temporary file is open. -/
def finalize (outcomes : Outcomes) (cachename tempname : Str) (file : ℕ) : Code Client Unit := do
  close file
  if !outcomes.statusOK then remove outcomes tempname
  else
    remove outcomes cachename
    rename outcomes tempname cachename

/-- `transfer::get_value`; `ss` has all that was received. -/
def getValue (outcomes : Outcomes) (examines : Bool) (cachename : Str) (sizes : List ℕ) :
    Code Client Str :=
  if outcomes.statusOK then pure outcomes.chunks.flatten
  else do
    let cached ← fileExists examines cachename
    if cached then readCache cachename sizes else return []

/-- The transfer of an object, up to `finalize`. -/
def transfer (me : Client) (outcomes : Outcomes) (written : List Str) (cachename tempname : Str) :
    Code Client Unit :=
  if outcomes.opens then do
    let file ← create me tempname
    -- whether all of it gets into the file is not looked at
    written.forM (append file)
    finalize outcomes cachename tempname file
  else pure ()

/-- `read_s3`. -/
def readS3 {versions : Str → Set Str} (paths : Paths Client) (me : Client)
    (request : Request versions) : Code Client Str := do
  let cachename := objectCachePath paths.cachePath request.objectname
  transfer me request.outcomes request.written cachename (paths.uniquePath me)
  getValue request.outcomes request.examines cachename request.sizes

/-! ## What a read may answer -/

/-- What the cached copy of an object can be after these labels: a version, or what a transfer has
left of one because not all of it got into its file. -/
def stored (versions : Str → Set Str) (labels : List (Label Client (Request versions)))
    (objectname : Str) : Set Str :=
  {text | text ∈ versions objectname ∨ ∃ client request, .start client request ∈ labels ∧
    request.objectname = objectname ∧ request.outcomes.statusOK = true ∧
    request.written.flatten ≠ request.outcomes.chunks.flatten ∧ text = request.written.flatten}

/-- What was downloaded, or else one of the copies that may be cached, or nothing. -/
def IsAnswer {versions : Str → Set Str} (copies : Str → Set Str) (request : Request versions) :
    Except FilesystemError Str → Prop
  | .ok value =>
      if request.outcomes.statusOK then value = request.outcomes.chunks.flatten
      else value = [] ∨ value ∈ copies request.objectname
  | .error fault =>
      request.outcomes.removes fault.path = false ∨
        request.outcomes.statusOK = false ∧ request.examines = false

end

/-! ## What transfers do to the files of others -/

section

variable {Client : Type} (paths : Paths Client) (copies : Str → Set Str)

/-- What has a name is a file, and every cached copy is one of those there may be, and nobody has it
open for writing. -/
structure Disk.Whole (disk : Disk Client) : Prop where
  allocated : ∀ path file, disk.names path = some file → file < disk.unused
  cached : ∀ objectname file,
    disk.names (objectCachePath paths.cachePath objectname) = some file →
      disk.writer file = none ∧ disk.contents file ∈ copies objectname

/-- A client writes only to files that it has open, and leaves the others' temporary names
alone. -/
structure May (me : Client) (disk disk' : Disk Client) : Prop where
  unused_le : disk.unused ≤ disk'.unused
  kept : ∀ file < disk.unused, disk.writer file ≠ some me →
    disk'.writer file = disk.writer file ∧ disk'.contents file = disk.contents file
  names : ∀ other, other ≠ me →
    disk'.names (paths.uniquePath other) = disk.names (paths.uniquePath other)

/-- How transfers use the files; nobody waits for anybody. -/
def protocol : Protocol Client (Disk Client) where
  Inv := Disk.Whole paths copies
  May := May paths
  may_refl := fun _ _ => ⟨Nat.le_refl _, fun _ _ _ => ⟨rfl, rfl⟩, fun _ _ => rfl⟩
  Owns := fun _ _ => False
  owns_iff := fun _ _ _ => Iff.rfl

/-- The temporary file of a client: who has it open, and what is in it. -/
structure Has (me : Client) (file : ℕ) (writer : Option Client) (text : Str)
    (disk : Disk Client) : Prop where
  name : disk.names (paths.uniquePath me) = some file
  writer_eq : disk.writer file = writer
  contents_eq : disk.contents file = text

/-- A file that is never written again. -/
structure Sealed (file : ℕ) (text : Str) (disk : Disk Client) : Prop where
  allocated : file < disk.unused
  writer_eq : disk.writer file = none
  contents_eq : disk.contents file = text

variable {paths copies} {me : Client} {file : ℕ} {text : Str}

/-- There may be more copies. -/
theorem Disk.Whole.mono {disk : Disk Client} {copies' : Str → Set Str}
    (h : disk.Whole paths copies) (hmore : ∀ objectname, copies objectname ⊆ copies' objectname) :
    disk.Whole paths copies' where
  allocated := h.allocated
  cached := fun objectname file hname =>
    ⟨(h.cached objectname file hname).1, hmore objectname (h.cached objectname file hname).2⟩

theorem stable_has {writer : Option Client} (hwriter : ∀ other, other ≠ me → writer ≠ some other) :
    (protocol paths copies).Stable me (Has paths me file writer text) := by
  intro other hother disk disk' hwhole h hmay
  have hallocated : file < disk.unused := hwhole.allocated _ _ h.name
  have hkept := hmay.kept file hallocated (h.writer_eq ▸ hwriter other hother)
  exact ⟨(hmay.names me hother.symm).trans h.name, hkept.1.trans h.writer_eq,
    hkept.2.trans h.contents_eq⟩

theorem stable_open : (protocol paths copies).Stable me (Has paths me file (some me) text) :=
  stable_has fun _ hother hsame => hother (Option.some.inj hsame).symm

theorem stable_closed : (protocol paths copies).Stable me (Has paths me file none text) :=
  stable_has fun _ _ hsame => by cases hsame

theorem stable_sealed : (protocol paths copies).Stable me (Sealed file text) := by
  intro other hother disk disk' _ h hmay
  have hkept := hmay.kept file h.allocated (by rw [h.writer_eq]; exact nofun)
  exact ⟨h.allocated.trans_le hmay.unused_le, hkept.1.trans h.writer_eq,
    hkept.2.trans h.contents_eq⟩

theorem stable_true : (protocol paths copies).Stable me fun _ => True := fun _ _ _ _ _ h _ => h

/-! ## The steps of a transfer -/

variable {fails : FilesystemError → Prop}

theorem create_gives :
    Gives (protocol paths copies) me (create me (paths.uniquePath me)) (fun _ => True)
      (fun file => Has paths me file (some me) []) fails := by
  refine Gives.act (fun disk => (disk.unused, _)) (fun _ => stable_open)
    fun disk hwhole _ => ⟨⟨fun path file hname => ?_, fun objectname file hname => ?_⟩, ?_, ?_⟩
  · show file < disk.unused + 1
    by_cases hpath : path = paths.uniquePath me
    · have hname : Function.update disk.names (paths.uniquePath me) (some disk.unused) path =
          some file := hname
      rw [hpath, Function.update_self] at hname
      have := Option.some.inj hname
      omega
    · have hold := hwhole.allocated path file
        ((Function.update_of_ne hpath _ _).symm.trans hname)
      omega
  · -- the new file is not a cached copy
    have hold := (Function.update_of_ne (paths.apart me objectname).symm _ _).symm.trans hname
    have hne : file ≠ disk.unused := (hwhole.allocated _ _ hold).ne
    have hcached := hwhole.cached objectname file hold
    exact ⟨(Function.update_of_ne hne _ _).trans hcached.1,
      (congrArg (· ∈ copies objectname) (Function.update_of_ne hne _ _)).mpr hcached.2⟩
  · refine ⟨Nat.le_succ _, fun file hfile _ => ?_, fun other hother => ?_⟩
    · exact ⟨Function.update_of_ne hfile.ne _ _, Function.update_of_ne hfile.ne _ _⟩
    · exact Function.update_of_ne (fun hsame => hother (paths.injective hsame)) _ _
  · exact ⟨Function.update_self .., Function.update_self .., Function.update_self ..⟩

/-- A client changes a file that it has open: no cached copy is that file. -/
theorem whole_of_own {disk disk' : Disk Client} (hwhole : disk.Whole paths copies)
    (hwriter : disk.writer file = some me) (hnames : disk'.names = disk.names)
    (hunused : disk'.unused = disk.unused)
    (hothers : ∀ other, other ≠ file →
      disk'.writer other = disk.writer other ∧ disk'.contents other = disk.contents other) :
    disk'.Whole paths copies ∧ May paths me disk disk' := by
  refine ⟨⟨fun path other hname => ?_, fun objectname other hname => ?_⟩, hunused.ge,
    fun other _ hother => ?_, fun other _ => congrFun hnames _⟩
  · rw [hunused]
    exact hwhole.allocated path other (hnames ▸ hname)
  · have hcached := hwhole.cached objectname other (hnames ▸ hname)
    have hne : other ≠ file := by
      intro hsame
      rw [hsame, hwriter] at hcached
      cases hcached.1
    rw [(hothers other hne).1, (hothers other hne).2]
    exact hcached
  · exact hothers other fun hsame => hother (hsame ▸ hwriter)

theorem append_gives (bfr : Str) :
    Gives (protocol paths copies) me (append file bfr) (Has paths me file (some me) text)
      (fun _ => Has paths me file (some me) (text ++ bfr)) fails := by
  refine Gives.write stable_open fun disk hwhole h => ?_
  obtain ⟨hwhole', hmay⟩ : Disk.Whole paths copies { disk with
      contents := Function.update disk.contents file (disk.contents file ++ bfr) } ∧
        May paths me disk { disk with
          contents := Function.update disk.contents file (disk.contents file ++ bfr) } :=
    whole_of_own hwhole h.writer_eq rfl rfl
      fun other hother => ⟨rfl, Function.update_of_ne hother _ _⟩
  refine ⟨hwhole', hmay, h.name, h.writer_eq, ?_⟩
  exact (Function.update_self ..).trans (congrArg (· ++ bfr) h.contents_eq)

theorem commit_gives (chunks : List Str) :
    Gives (protocol paths copies) me (chunks.forM (append file))
      (Has paths me file (some me) text)
      (fun _ => Has paths me file (some me) (text ++ chunks.flatten)) fails := by
  induction chunks generalizing text with
  | nil =>
      rw [List.flatten_nil, List.append_nil]
      exact Gives.pure fun _ _ h => h
  | cons chunk rest ih =>
      rw [List.flatten_cons, ← List.append_assoc]
      exact (append_gives chunk).bind fun _ => ih

theorem close_gives :
    Gives (protocol paths copies) me (close file) (Has paths me file (some me) text)
      (fun _ => Has paths me file none text) fails := by
  refine Gives.write stable_closed fun disk hwhole h => ?_
  obtain ⟨hwhole', hmay⟩ : Disk.Whole paths copies
      { disk with writer := Function.update disk.writer file none } ∧
        May paths me disk { disk with writer := Function.update disk.writer file none } :=
    whole_of_own hwhole h.writer_eq rfl rfl
      fun other hother => ⟨Function.update_of_ne hother _ _, rfl⟩
  exact ⟨hwhole', hmay, h.name, Function.update_self .., h.contents_eq⟩

/-- A client takes names away, or gives one to a file: it is not another client's, and what
becomes a cached copy is one that there may be, and that nobody writes. -/
theorem whole_of_names {disk : Disk Client} {names : Str → Option ℕ}
    (hothers : ∀ other, other ≠ me →
      names (paths.uniquePath other) = disk.names (paths.uniquePath other))
    (hallocated : ∀ path file, names path = some file → file < disk.unused)
    (hcached : ∀ objectname file,
      names (objectCachePath paths.cachePath objectname) = some file →
        disk.writer file = none ∧ disk.contents file ∈ copies objectname) :
    ({ disk with names } : Disk Client).Whole paths copies ∧
      May paths me disk { disk with names } :=
  ⟨⟨hallocated, hcached⟩, Nat.le_refl _, fun _ _ _ => ⟨rfl, rfl⟩, hothers⟩

/-- What is left after a `remove` was there before. -/
theorem whole_of_remove {disk : Disk Client} (hwhole : disk.Whole paths copies) {path : Str}
    (hpath : ∀ other, other ≠ me → paths.uniquePath other ≠ path) :
    ({ disk with names := Function.update disk.names path none } : Disk Client).Whole
        paths copies ∧
      May paths me disk { disk with names := Function.update disk.names path none } := by
  have hold : ∀ {other : Str} {file : ℕ},
      Function.update disk.names path none other = some file → disk.names other = some file := by
    intro other file hname
    by_cases hsame : other = path
    · rw [hsame, Function.update_self] at hname
      cases hname
    · exact (Function.update_of_ne hsame _ _).symm.trans hname
  refine whole_of_names (fun other hother => Function.update_of_ne (hpath other hother) _ _)
    (fun other file hname => hwhole.allocated other file (hold hname))
    fun objectname file hname => ?_
  exact hwhole.cached objectname file (hold hname)

theorem remove_gives {outcomes : Outcomes} {path : Str} {pre post : Disk Client → Prop}
    (hpath : ∀ other, other ≠ me → paths.uniquePath other ≠ path)
    (hstable : (protocol paths copies).Stable me post)
    (hpost : ∀ disk, pre disk →
      post { disk with names := Function.update disk.names path none }) :
    Gives (protocol paths copies) me (remove outcomes path) pre (fun _ => post)
      fun fault => outcomes.removes fault.path = false := by
  unfold remove
  split
  · refine Gives.write hstable fun disk hwhole h => ?_
    obtain ⟨hwhole', hmay⟩ := whole_of_remove hwhole hpath
    exact ⟨hwhole', hmay, hpost disk h⟩
  · next hfails => exact Gives.throw (Bool.eq_false_iff.2 hfails)

/-- The temporary file becomes the cached copy: it is closed, and a copy that there may be. -/
theorem rename_gives {outcomes : Outcomes} {objectname : Str} (hcopy : text ∈ copies objectname) :
    Gives (protocol paths copies) me
      (rename outcomes (paths.uniquePath me) (objectCachePath paths.cachePath objectname))
      (Has paths me file none text) (fun _ _ => True) fails := by
  unfold rename
  split
  · refine Gives.write stable_true fun disk hwhole h => ?_
    have hsource : disk.names (paths.uniquePath me) = some file := h.name
    -- the name of the cached copy now leads to the file, and all others lead where they did
    have hnew : ∀ {path : Str} {other : ℕ}, Function.update (Function.update disk.names
        (objectCachePath paths.cachePath objectname) (disk.names (paths.uniquePath me)))
          (paths.uniquePath me) none path = some other →
        disk.names path = some other ∨
          path = objectCachePath paths.cachePath objectname ∧ other = file := by
      intro path other hname
      by_cases htemp : path = paths.uniquePath me
      · rw [htemp, Function.update_self] at hname
        cases hname
      · rw [Function.update_of_ne htemp] at hname
        by_cases hcache : path = objectCachePath paths.cachePath objectname
        · rw [hcache, Function.update_self, hsource] at hname
          exact .inr ⟨hcache, (Option.some.inj hname).symm⟩
        · rw [Function.update_of_ne hcache] at hname
          exact .inl hname
    refine and_assoc.1 ⟨whole_of_names (fun other hother => ?_) (fun path other hname => ?_)
      fun object other hname => ?_, trivial⟩
    · rw [Function.update_of_ne fun hsame => hother (paths.injective hsame),
        Function.update_of_ne (paths.apart other objectname)]
    · rcases hnew hname with hold | hmoved
      · exact hwhole.allocated path other hold
      · exact hmoved.2 ▸ hwhole.allocated _ file hsource
    · rcases hnew hname with hold | hmoved
      · exact hwhole.cached object other hold
      · obtain rfl := objectCachePath_injective paths.cachePath hmoved.1
        rw [hmoved.2]
        exact ⟨h.writer_eq, h.contents_eq ▸ hcopy⟩
  · exact Gives.pure fun _ _ _ => trivial

theorem finalize_gives {outcomes : Outcomes} {objectname : Str}
    (hcopy : outcomes.statusOK = true → text ∈ copies objectname) :
    Gives (protocol paths copies) me
      (finalize outcomes (objectCachePath paths.cachePath objectname) (paths.uniquePath me) file)
      (Has paths me file (some me) text) (fun _ _ => True)
      fun fault => outcomes.removes fault.path = false := by
  refine close_gives.bind fun _ => ?_
  cases hstatus : outcomes.statusOK with
  | false =>
      exact remove_gives (fun other hother hsame => hother (paths.injective hsame)) stable_true
        fun _ _ => trivial
  | true =>
      refine (remove_gives (fun other _ => paths.apart other objectname) stable_closed
        fun disk h => ⟨?_, h.writer_eq, h.contents_eq⟩).bind fun _ =>
          rename_gives (hcopy hstatus)
      exact (Function.update_of_ne (paths.apart me objectname) _ _).trans h.name

theorem transfer_gives {outcomes : Outcomes} {written : List Str} {objectname : Str}
    (hcopy : outcomes.statusOK = true → written.flatten ∈ copies objectname) :
    Gives (protocol paths copies) me
      (transfer me outcomes written (objectCachePath paths.cachePath objectname)
        (paths.uniquePath me))
      (fun _ => True) (fun _ _ => True) fun fault => outcomes.removes fault.path = false := by
  unfold transfer
  split
  · exact create_gives.bind fun file => (commit_gives written).bind fun _ => finalize_gives hcopy
  · exact Gives.pure fun _ _ h => h

/-! ## Reading the cached copy -/

/-- An open file that nobody writes is read as a whole, in blocks of any size. -/
theorem readBlocks_gives (position : ℕ) (sizes : List ℕ) :
    Gives (protocol paths copies) me (readBlocks file position sizes) (Sealed file text)
      (fun value _ => value = text.drop position) fails := by
  induction sizes generalizing position with
  | nil =>
      exact Gives.read (fun _ => (protocol paths copies).stable_const _) fun disk _ h =>
        congrArg (List.drop position) h.contents_eq
  | cons size sizes ih =>
      have hblock : Gives (protocol paths copies) me
          (Throwing.read fun disk => ((disk.contents file).drop position).take size)
          (Sealed file text)
          (fun block disk => block = (text.drop position).take size ∧ Sealed file text disk)
          fails :=
        Gives.read (fun _ => ((protocol paths copies).stable_const _).and stable_sealed)
          fun disk _ h => ⟨by rw [h.contents_eq], h⟩
      refine hblock.bind fun block => Gives.of_and fun hblock => ?_
      refine (ih (position + size)).bind fun rest => Gives.pure fun _ _ hrest => ?_
      calc block ++ rest = (text.drop position).take size ++ text.drop (position + size) := by
            rw [hblock, hrest]
        _ = (text.drop position).take size ++ (text.drop position).drop size := by
            rw [List.drop_drop]
        _ = text.drop position := List.take_append_drop size _

theorem readCache_gives (objectname : Str) (sizes : List ℕ) :
    Gives (protocol paths copies) me
      (readCache (objectCachePath paths.cachePath objectname) sizes) (fun _ => True)
      (fun value _ => value = [] ∨ value ∈ copies objectname) fails := by
  have hopen : Gives (protocol paths copies) me
      (Throwing.read fun disk => disk.names (objectCachePath paths.cachePath objectname))
      (fun _ => True)
      (fun opened disk => ∀ file, opened = some file →
        ∃ text, text ∈ copies objectname ∧ Sealed file text disk) fails := by
    refine Gives.read (fun opened other hother disk disk' hwhole h hmay file hopened => ?_)
      fun disk hwhole _ file hopened => ?_
    · obtain ⟨text, htext, hsealed⟩ := h file hopened
      exact ⟨text, htext, stable_sealed hother hwhole hsealed hmay⟩
    · have hcached := hwhole.cached objectname file hopened
      exact ⟨_, hcached.2, hwhole.allocated _ file hopened, hcached.1, rfl⟩
  refine hopen.bind fun opened => ?_
  cases opened with
  | none => exact Gives.pure fun _ _ _ => .inl rfl
  | some file =>
      have hread : Gives (protocol paths copies) me (readBlocks file 0 sizes)
          (fun disk => ∃ text, text ∈ copies objectname ∧ Sealed file text disk)
          (fun value _ => value = [] ∨ value ∈ copies objectname) fails := by
        refine Gives.of_exists fun text => Gives.of_and fun htext => ?_
        refine (readBlocks_gives 0 sizes).weaken (fun _ _ h => h) fun value _ _ hvalue => ?_
        exact .inr (hvalue ▸ htext)
      exact hread.weaken (fun _ _ h => h file rfl) fun _ _ _ h => h

variable {versions : Str → Set Str}

theorem getValue_gives (request : Request versions) :
    Gives (protocol paths copies) me
      (getValue request.outcomes request.examines
        (objectCachePath paths.cachePath request.objectname) request.sizes)
      (fun _ => True) (fun value _ => IsAnswer copies request (.ok value))
      fun _ => request.outcomes.statusOK = false ∧ request.examines = false := by
  unfold getValue IsAnswer
  cases request.outcomes.statusOK with
  | true => exact Gives.pure fun _ _ _ => rfl
  | false =>
      have hexists : Gives (protocol paths copies) me
          (fileExists request.examines (objectCachePath paths.cachePath request.objectname))
          (fun _ => True) (fun _ _ => True)
          fun _ => false = false ∧ request.examines = false := by
        unfold fileExists
        cases request.examines with
        | true => exact Gives.read (fun _ => stable_true) fun _ _ h => h
        | false => exact Gives.throw ⟨rfl, rfl⟩
      refine hexists.bind fun cached => ?_
      cases cached with
      | false => exact Gives.pure fun _ _ _ => .inl rfl
      | true => exact readCache_gives request.objectname request.sizes

/-- A request that leaves one of the copies there may be. -/
theorem readS3_sound (request : Request versions)
    (hcopy : request.outcomes.statusOK = true →
      request.written.flatten ∈ copies request.objectname) :
    SoundFor (protocol paths copies) (IsAnswer copies) me request
      (readS3 paths me request).run := by
  have htransfer : Gives (protocol paths copies) me
      (transfer me request.outcomes request.written
        (objectCachePath paths.cachePath request.objectname) (paths.uniquePath me))
      (fun _ => True) (fun _ _ => True)
      fun fault => request.outcomes.removes fault.path = false ∨
        request.outcomes.statusOK = false ∧ request.examines = false :=
    (transfer_gives hcopy).imp fun _ h => .inl h
  -- what `remove` throws goes through; otherwise the cached copy is read
  have hread : Gives (protocol paths copies) me (readS3 paths me request)
      (fun _ => True) (fun value _ => IsAnswer copies request (.ok value))
      fun fault => request.outcomes.removes fault.path = false ∨
        request.outcomes.statusOK = false ∧ request.examines = false :=
    htransfer.bind fun _ => (getValue_gives request).imp fun _ h => .inr h
  refine Protocol.Meets.weaken hread (fun _ _ _ => trivial)
    fun answer disk _ hanswer => ⟨fun h => h, ?_⟩
  rcases hanswer with hvalue | hfault
  · obtain ⟨value, rfl, hvalue⟩ := hvalue
    exact hvalue
  · obtain ⟨fault, rfl, hfault⟩ := hfault
    exact hfault

/-- What a transfer that begins in the run leaves is among the copies there may be. -/
theorem written_mem_stored {labels : List (Label Client (Request versions))} {client : Client}
    {request : Request versions} (hstart : .start client request ∈ labels)
    (hstatus : request.outcomes.statusOK = true) :
    request.written.flatten ∈ stored versions labels request.objectname := by
  by_cases hall : request.written.flatten = request.outcomes.chunks.flatten
  · exact .inl (hall ▸ request.complete hstatus)
  · exact .inr ⟨client, request, hstart, rfl, hstatus, hall, rfl⟩

/-- **What is read is one copy, as a whole.**  However the steps of any number of transfers
interleave, a read whose download succeeds answers with what was downloaded, and any other with
nothing or with a version of the object, or with what one transfer, of which not all was written,
has left of one.  Every cached copy is one of these too.  A read throws only where a `remove` or
`exists` does. -/
theorem read_whole [DecidableEq Client] (paths : Paths Client) (versions : Str → Set Str)
    {disk : Disk Client} (hdisk : disk.Whole paths versions)
    {labels : List (Label Client (Request versions))}
    {final : State Client (Disk Client) (Request versions) (Except FilesystemError Str)}
    (hrun : Transition.run
      (step fun client (request : Request versions) => (readS3 paths client request).run)
      (State.initial disk) labels = some final) :
    (∀ request answer, (request, answer) ∈ final.ended →
      IsAnswer (stored versions labels) request answer) ∧
    ∀ objectname file,
      final.memory.names (objectCachePath paths.cachePath objectname) = some file →
        final.memory.contents file ∈ stored versions labels objectname := by
  have hmore : disk.Whole paths (stored versions labels) :=
    hdisk.mono fun _ _ htext => .inl htext
  have hinv := (inv_initial (p := protocol paths (stored versions labels)) hmore
    fun _ h => h).run_of_starts
      (fun _ request hstart => readS3_sound request (written_mem_stored hstart)) hrun
  exact ⟨hinv.ended, fun objectname file hname => (hinv.memory.cached objectname file hname).2⟩

end

/-! ## A transfer alone

Where nothing comes in between, it does what `S3.readS3` does to the files. -/

section

variable {Client : Type} {me : Client} {disk : Disk Client} {outcomes : Outcomes}

/-- The files by their paths. -/
def Disk.files (disk : Disk Client) : Files := fun path => (disk.names path).map disk.contents

theorem files_removed (disk : Disk Client) (path : Str) :
    ({ disk with names := Function.update disk.names path none } : Disk Client).files =
      Function.update disk.files path none := by
  funext other
  by_cases hsame : other = path
  · subst hsame
    simp [Disk.files]
  · simp [Disk.files, Function.update_of_ne hsame]

theorem files_renamed (disk : Disk Client) (source target : Str) :
    ({ disk with
        names := Function.update (Function.update disk.names target (disk.names source)) source
          none } : Disk Client).files =
      Function.update (Function.update disk.files target (disk.files source)) source none := by
  funext other
  by_cases hsource : other = source
  · subst hsource
    simp [Disk.files]
  · by_cases htarget : other = target
    · subst htarget
      simp [Disk.files, Function.update_of_ne hsource]
    · simp [Disk.files, Function.update_of_ne hsource, Function.update_of_ne htarget]

/-- The temporary file as it is after `chunks`, and closed if `writer` is `none`. -/
def Disk.written (disk : Disk Client) (path : Str) (writer : Option Client) (text : Str) :
    Disk Client where
  names := Function.update disk.names path (some disk.unused)
  contents := Function.update disk.contents disk.unused text
  writer := Function.update disk.writer disk.unused writer
  unused := disk.unused + 1

/-- No other name is a link to the new file. -/
theorem files_written (hallocated : ∀ path file, disk.names path = some file → file < disk.unused)
    (path : Str) (writer : Option Client) (text : Str) :
    (disk.written path writer text).files = Function.update disk.files path (some text) := by
  funext other
  by_cases hsame : other = path
  · subst hsame
    simp [Disk.files, Disk.written]
  · simp only [Disk.files, Disk.written, Function.update_of_ne hsame]
    cases hname : disk.names other with
    | none => rfl
    | some file => simp [Function.update_of_ne (hallocated other file hname).ne]

theorem commit_alone (path : Str) (chunks : List Str) (text : Str) :
    (chunks.forM (append disk.unused) : Code Client Unit).run.alone
        (disk.written path (some me) text) =
      some (.ok (), disk.written path (some me) (text ++ chunks.flatten)) := by
  induction chunks generalizing text with
  | nil =>
      rw [List.flatten_nil, List.append_nil]
      rfl
  | cons chunk rest ih =>
      have happend : (append disk.unused chunk : Code Client Unit).run.alone
          (disk.written path (some me) text) =
            some (.ok (), disk.written path (some me) (text ++ chunk)) := by
        simp [append, Throwing.write, Disk.written]
      rw [List.flatten_cons, ← List.append_assoc]
      exact (Throwing.alone_bind_ok happend).trans (ih (text ++ chunk))

/-- Both remove the file, or both throw. -/
theorem remove_alone (outcomes : Outcomes) (path : Str) (disk : Disk Client) :
    ∃ ended after, (remove outcomes path : Code Client Unit).run.alone disk = some (ended, after) ∧
      S3.remove outcomes disk.files path = ended.map fun _ => after.files := by
  unfold remove S3.remove
  split
  · exact ⟨.ok (), _, rfl, congrArg Except.ok (files_removed disk path).symm⟩
  · exact ⟨.error ⟨path⟩, disk, rfl, rfl⟩

theorem finalize_alone (me : Client) (transfer : Transfer) (hopen : transfer.isOpen = true)
    (hfailed : transfer.failed = !outcomes.statusOK)
    (hallocated : ∀ path file, disk.names path = some file → file < disk.unused) (text : Str) :
    ∃ ended after,
      (finalize outcomes transfer.cachename transfer.tempname disk.unused :
        Code Client Unit).run.alone (disk.written transfer.tempname (some me) text) =
          some (ended, after) ∧
      S3.finalize outcomes
          (transfer, Function.update disk.files transfer.tempname (some text)) =
        ended.map fun _ => ({ transfer with isOpen := false }, after.files) := by
  have hclose : (close disk.unused : Code Client Unit).run.alone
      (disk.written transfer.tempname (some me) text) =
        some (.ok (), disk.written transfer.tempname none text) := by
    simp [close, Throwing.write, Disk.written]
  unfold finalize S3.finalize
  rw [← files_written hallocated transfer.tempname none text, Throwing.alone_bind_ok hclose]
  simp only [hopen, hfailed]
  cases outcomes.statusOK with
  | false =>
      obtain ⟨ended, after, halone, hfiles⟩ := remove_alone outcomes transfer.tempname
        (disk.written transfer.tempname none text)
      refine ⟨ended, after, halone, ?_⟩
      simp only [Bool.not_true, Bool.not_false, if_true, Bool.false_eq_true, if_false, hfiles]
      cases ended <;> rfl
  | true =>
      obtain ⟨ended, after, halone, hfiles⟩ := remove_alone outcomes transfer.cachename
        (disk.written transfer.tempname none text)
      simp only [Bool.not_true, Bool.false_eq_true, if_false, hfiles]
      cases ended with
      | error fault => exact ⟨.error fault, after, Throwing.alone_bind_error halone, rfl⟩
      | ok removed =>
          rw [Throwing.alone_bind_ok halone]
          unfold rename S3.rename
          split
          · refine ⟨.ok (), _, rfl, ?_⟩
            rw [files_renamed]
            rfl
          · exact ⟨.ok (), after, rfl, rfl⟩

theorem transfer_alone (me : Client) (outcomes : Outcomes)
    (cachePath objectname tempname : Str)
    (hallocated : ∀ path file, disk.names path = some file → file < disk.unused) :
    ∃ ended after transfer',
      (transfer me outcomes outcomes.chunks (objectCachePath cachePath objectname)
        tempname).run.alone disk = some (ended, after) ∧
      S3.fetch cachePath objectname tempname outcomes disk.files =
        ended.map (fun _ => (transfer', after.files)) ∧
      transfer'.failed = !outcomes.statusOK ∧ transfer'.received = outcomes.chunks.flatten ∧
      transfer'.cachename = objectCachePath cachePath objectname ∧
      transfer'.objectname = objectname := by
  unfold S3.fetch transfer
  rw [getObject_new]
  cases outcomes.opens with
  | false =>
      exact ⟨.ok (), disk, _, rfl, rfl, rfl, rfl, rfl, rfl⟩
  | true =>
      let opened : Transfer :=
        { failed := !outcomes.statusOK
          isOpen := true
          cachename := objectCachePath cachePath objectname
          tempname
          received := outcomes.chunks.flatten
          errorMessage := outcomes.message.getD "unknown error."
          objectname }
      obtain ⟨ended, after, halone, hfetch⟩ := finalize_alone me opened rfl rfl hallocated
        outcomes.chunks.flatten
      have hcreate : (create me tempname).run.alone disk =
          some (.ok disk.unused, disk.written tempname (some me) []) := rfl
      refine ⟨ended, after, { opened with isOpen := false }, ?_, hfetch, rfl, rfl, rfl, rfl⟩
      exact (Throwing.alone_bind_ok hcreate).trans
        ((Throwing.alone_bind_ok (commit_alone tempname outcomes.chunks [])).trans halone)

theorem readBlocks_alone (file position : ℕ) (sizes : List ℕ) :
    (readBlocks file position sizes : Code Client Str).run.alone disk =
      some (.ok ((disk.contents file).drop position), disk) := by
  induction sizes generalizing position with
  | nil => rfl
  | cons size sizes ih =>
      have hblock : (Throwing.read fun disk => ((disk.contents file).drop position).take size :
          Code Client Str).run.alone disk =
            some (.ok (((disk.contents file).drop position).take size), disk) := rfl
      refine (Throwing.alone_bind_ok hblock).trans ((Throwing.alone_bind_ok (ih _)).trans ?_)
      have hwhole : ((disk.contents file).drop position).take size ++
          (disk.contents file).drop (position + size) = (disk.contents file).drop position := by
        rw [← List.drop_drop, List.take_append_drop]
      rw [hwhole]
      rfl

theorem getValue_alone {cachePath : Str} {transfer : Transfer} (sizes : List ℕ)
    (hfailed : transfer.failed = !outcomes.statusOK)
    (hreceived : transfer.received = outcomes.chunks.flatten)
    (hcachename : transfer.cachename = objectCachePath cachePath transfer.objectname) :
    (getValue outcomes true transfer.cachename sizes : Code Client Str).run.alone disk =
      some (.ok (transfer.getValue cachePath disk.files), disk) := by
  unfold getValue Transfer.getValue
  rw [hfailed, hreceived]
  cases outcomes.statusOK with
  | true => rfl
  | false =>
      have hexists : (fileExists true transfer.cachename : Code Client Bool).run.alone disk =
          some (.ok (disk.names transfer.cachename).isSome, disk) := rfl
      have hopen : (Throwing.read fun disk => disk.names transfer.cachename :
          Code Client (Option ℕ)).run.alone disk =
            some (.ok (disk.names transfer.cachename), disk) := rfl
      simp only [Bool.not_false, Bool.not_true, Bool.false_eq_true, if_false]
      rw [Throwing.alone_bind_ok hexists]
      unfold S3.readCache Disk.files
      rw [← hcachename, Option.isSome_map]
      cases hname : disk.names transfer.cachename with
      | none => rfl
      | some file =>
          rw [hname] at hopen
          exact (Throwing.alone_bind_ok hopen).trans (readBlocks_alone file 0 sizes)

/-- **A transfer alone is the transfer of `S3`**, where writing and `exists` do not fail. -/
theorem readS3_alone {versions : Str → Set Str} (paths : Paths Client)
    (request : Request versions) (hwritten : request.written = request.outcomes.chunks)
    (hexamines : request.examines = true)
    (hallocated : ∀ path file, disk.names path = some file → file < disk.unused) :
    ∃ answer after, (readS3 paths me request).run.alone disk = some (answer, after) ∧
      S3.readS3 paths.cachePath request.objectname (paths.uniquePath me) request.outcomes
        disk.files = answer.map fun value => (value, after.files) := by
  obtain ⟨ended, after, transfer', halone, hfetch, hfailed, hreceived, hcachename, hobjectname⟩ :=
    transfer_alone me request.outcomes paths.cachePath request.objectname (paths.uniquePath me)
      hallocated
  unfold readS3 S3.readS3
  rw [hfetch, hwritten, hexamines]
  cases ended with
  | error fault => exact ⟨.error fault, after, Throwing.alone_bind_error halone, rfl⟩
  | ok ended =>
      refine ⟨.ok (transfer'.getValue paths.cachePath after.files), after, ?_, rfl⟩
      refine (Throwing.alone_bind_ok halone).trans ?_
      rw [← hobjectname] at hcachename
      rw [← hobjectname, ← hcachename]
      exact getValue_alone request.sizes hfailed hreceived hcachename

end

/-! ## Two transfers -/

/-- Two clients. -/
def twoPaths : Paths Bool where
  cachePath := "/cache"
  uniquePath := fun client => if client then "/tmp/vaedb-1" else "/tmp/vaedb-2"
  injective := by decide
  apart := by
    intro client objectname h
    cases client <;> simp [objectCachePath] at h

/-- An object with two versions. -/
def twoVersions (objectname : Str) : Set Str :=
  {text | objectname = "feed" ∧ (text = "old" ∨ text = "new")}

/-- The new version is downloaded. -/
def download : Request twoVersions where
  objectname := "feed"
  outcomes := ⟨true, ["n", "ew"], true, none, fun _ => true, true⟩
  written := ["n", "ew"]
  examines := true
  sizes := []
  complete := fun _ => ⟨rfl, .inr rfl⟩

/-- A download fails. -/
def failing : Request twoVersions where
  objectname := "feed"
  outcomes := ⟨false, [], false, none, fun _ => true, true⟩
  written := []
  examines := true
  sizes := [1]
  complete := nofun

/-- The cached copy is replaced while it is read. -/
def replaced : List (Label Bool (Request twoVersions)) :=
  [.start true download, .start false failing, .act true, .act true, .act true, .act true,
    .act false, .act false, .act false, .act true, .act true, .act false, .act false, .act true]

theorem read_whole_replaced :
    ∃ (disk : Disk Bool) (final : State Bool (Disk Bool) (Request twoVersions)
        (Except FilesystemError Str)) (value : Str),
      Transition.run
        (step fun client (request : Request twoVersions) => (readS3 twoPaths client request).run)
        (State.initial disk) replaced = some final ∧
      (failing, .ok value) ∈ final.ended ∧
      (value = [] ∨ value ∈ stored twoVersions replaced "feed") := by
  let disk : Disk Bool :=
    ⟨fun path => if path = "/cache/feed" then some 0 else none, fun _ => "old", fun _ => none, 1⟩
  have hfeed : ∀ {path : Str} {file : ℕ}, disk.names path = some file →
      path = objectCachePath twoPaths.cachePath "feed" ∧ file = 0 := by
    intro path file hname
    have hname : (if path = ("/cache/feed" : Str) then some 0 else none) = some file := hname
    split at hname
    · next hpath => exact ⟨hpath, (Option.some.inj hname).symm⟩
    · cases hname
  have hdisk : disk.Whole twoPaths twoVersions := by
    refine ⟨fun path file hname => ?_, fun objectname file hname => ⟨rfl, ?_, .inl rfl⟩⟩
    · exact (hfeed hname).2 ▸ Nat.one_pos
    · exact objectCachePath_injective twoPaths.cachePath (hfeed hname).1
  obtain ⟨final, hrun, value, hended⟩ : ∃ final : State Bool (Disk Bool) (Request twoVersions)
      (Except FilesystemError Str), Transition.run
        (step fun client (request : Request twoVersions) => (readS3 twoPaths client request).run)
        (State.initial disk) replaced = some final ∧ ∃ value, (failing, .ok value) ∈ final.ended :=
    ⟨_, rfl, _, List.mem_cons_of_mem _ (List.mem_cons_self ..)⟩
  exact ⟨disk, final, value, hrun, hended,
    (read_whole twoPaths twoVersions hdisk hrun).1 failing (.ok value) hended⟩

end VaeDb.S3.Transfers
