import DocComment.Files.Tree
import DocComment.Proofs.Text.Lines

/-!
# Changes of the files

A directory is only made where nothing is, so no file changes by it
(`keepsFiles_ensureDirectories`). A file is only written where a path leads that
leads to no directory, and behind that the path leads to the file
(`follow_put`). So a write that succeeds leaves only the one file changed, and a
write that fails leaves none (`writeEnds_writeDeep`).
-/

namespace DocComment

open Text

/-! ## Texts of paths -/

theorem Text.notMem_intercalate {c : Char} {separator : String} {texts : List String}
    (hseparator : c ∉ separator.toList) (h : ∀ text ∈ texts, c ∉ text.toList) :
    c ∉ (separator.intercalate texts).toList := by
  induction texts with
  | nil => simp
  | cons text texts ih =>
    have htext := h text List.mem_cons_self
    cases texts with
    | nil => simpa using htext
    | cons next texts =>
      have hrest := ih fun t ht => h t (List.mem_cons_of_mem text ht)
      rw [String.intercalate_cons_cons, String.toList_append, String.toList_append,
        List.mem_append, List.mem_append]
      exact not_or.mpr ⟨not_or.mpr ⟨htext, hseparator⟩, hrest⟩

/-- A path has no characters but those of the text that writes it, slashes and
dots. -/
theorem Path.notMem_text_ofString {c : Char} {s : String} (h : c ∉ s.toList) (hslash : c ≠ '/')
    (hdot : c ≠ '.') : c ∉ (Path.ofString s).text.toList := by
  have hroot : c ∉ (Path.rootOf s.toList).toList := by
    unfold Path.rootOf
    split <;> simp [hslash]
  have hnames : ∀ name ∈ (Path.ofString s).names, c ∉ name.toList := by
    intro name hname hc
    obtain ⟨piece, hpiece, rfl⟩ := List.mem_map.mp (List.mem_filter.mp hname).1
    rw [String.toList_ofList] at hc
    exact h (mem_of_mem_splitAt hpiece hc)
  unfold Path.text
  split
  · simp [hdot]
  · rw [String.toList_append, List.mem_append]
    exact not_or.mpr ⟨hroot, notMem_intercalate (by simpa using hslash) hnames⟩

/-- A plain name is a path to what has that name. -/
theorem Path.ofString_plain {cs : List Char} (hslash : '/' ∉ cs) (hne : cs ≠ [])
    (hdot : cs ≠ ['.']) : Path.ofString (String.ofList cs) = ⟨"", [String.ofList cs]⟩ := by
  have hroot : Path.rootOf cs = "" := by
    unfold Path.rootOf
    split <;> simp_all
  have hempty : String.ofList cs ≠ "" := fun h => hne (by simpa using congrArg String.toList h)
  have hhere : String.ofList cs ≠ "." := fun h => hdot (by simpa using congrArg String.toList h)
  unfold Path.ofString
  rw [String.toList_ofList, hroot, splitAt_of_notMem hslash]
  simp [hempty, hhere]

namespace FileTree

variable {tree other third : FileTree} {location directory : List String} {names : List String}
  {path : Path} {place : Place} {entry : Entry} {bytes : List UInt8}

/-! ## Entries -/

theorem lookup_filter_ne {entries : List (List String × Entry)} {found : List String}
    (h : found ≠ location) :
    (entries.filter (·.1 != location)).lookup found = entries.lookup found := by
  induction entries with
  | nil => rfl
  | cons item entries ih =>
    obtain ⟨at', entry⟩ := item
    by_cases hkept : at' = location
    · subst hkept
      have hskip : (found == at') = false := by simpa using h
      simp [List.lookup_cons, hskip, ih]
    · simp [hkept, List.lookup_cons, ih]

theorem entry?_put_self (h : location ≠ []) :
    entry? (tree.put location entry) location = some entry := by
  simp [ entry?, put, h]

/-- Only the location that is written to changes. -/
theorem entry?_put_of_ne {found : List String} (h : found ≠ location) :
    entry? (tree.put location entry) found = tree.entry? found := by
  have hfound : (found == location) = false := by simpa using h
  simp [ entry?, put, List.lookup_cons, hfound, lookup_filter_ne h]

def fileAt? (tree : FileTree) (location : List String) : Option (List UInt8) :=
  match tree.entry? location with
  | some (.file bytes) => some bytes
  | _ => none

/-- The same files have the same content. -/
def SameFiles (tree other : FileTree) : Prop :=
  ∀ location, other.fileAt? location = tree.fileAt? location

theorem SameFiles.refl (tree : FileTree) : SameFiles tree tree :=
  fun _ => rfl

theorem SameFiles.trans (h : SameFiles tree other) (h' : SameFiles other third) :
    SameFiles tree third :=
  fun location => (h' location).trans (h location)

/-! ## Where paths lead -/

/-- Where a file can be written: the location of a place that is no directory. -/
def Place.target? : Place → Option (List String)
  | .directory _ => none
  | .file location _ => some location
  | .vacant location => some location

/-- What a path leads to is there. -/
def Place.IsIn (tree : FileTree) : Place → Prop
  | .directory _ => True
  | .file location bytes => tree.entry? location = some (.file bytes)
  | .vacant location => tree.entry? location = none

/-- A walk ends at a place that is in the tree. -/
theorem isIn_of_walk (h : tree.walk directory names = .ok place) : place.IsIn tree := by
  induction names generalizing directory with
  | nil =>
    obtain rfl := Except.ok.inj h
    trivial
  | cons name names ih =>
    simp only [walk] at h
    -- a walk goes up, goes on below a directory, or ends at its last name
    split at h
    · cases h
    split at h
    · exact ih h
    · next bytes hentry =>
      split at h
      · obtain rfl := Except.ok.inj h
        exact hentry
      · cases h
    · next hentry =>
      split at h
      · obtain rfl := Except.ok.inj h
        exact hentry
      · cases h

/-- No directory stands where a file can be written. -/
theorem entry?_target (hplace : place.IsIn tree) (htarget : place.target? = some location) :
    tree.entry? location ≠ some .directory := by
  cases place with
  | directory => cases htarget
  | file _ bytes =>
    obtain rfl := Option.some.inj htarget
    rw [hplace]
    simp
  | vacant =>
    obtain rfl := Option.some.inj htarget
    rw [hplace]
    simp

theorem ne_nil_of_not_directory (h : tree.entry? location ≠ some .directory) : location ≠ [] := by
  rintro rfl
  exact h rfl

/-- The same names lead to the file that has been written where they lead. -/
theorem walk_put (h : tree.walk directory names = .ok place)
    (htarget : place.target? = some location) (bytes : List UInt8) :
    (tree.put location (.file bytes)).walk directory names = .ok (.file location bytes) := by
  have hnone := entry?_target (isIn_of_walk h) htarget
  have hself : entry? (tree.put location (.file bytes)) location = some (.file bytes) :=
    entry?_put_self (ne_nil_of_not_directory hnone)
  induction names generalizing directory with
  | nil =>
    obtain rfl := Except.ok.inj h
    cases htarget
  | cons name names ih =>
    simp only [walk] at h ⊢
    split at h
    · cases h
    next hlength =>
    rw [if_neg hlength]
    generalize (if name = ".." then directory.dropLast else directory ++ [name]) = next at h ⊢
    split at h
    · next hentry =>
      -- the names pass through other places only
      have hne : next ≠ location := by
        rintro rfl
        exact hnone hentry
      rw [entry?_put_of_ne hne, hentry]
      exact ih h
    · split at h
      · next hnames =>
        obtain rfl := Except.ok.inj h
        obtain rfl := Option.some.inj htarget
        rw [hself]
        simp only [hnames, if_pos]
      · cases h
    · split at h
      · next hnames =>
        obtain rfl := Except.ok.inj h
        obtain rfl := Option.some.inj htarget
        rw [hself]
        simp only [hnames, if_pos]
      · cases h

theorem isIn_of_follow (h : tree.follow path = .ok place) : place.IsIn tree := by
  unfold follow at h
  split at h
  · cases h
  · exact isIn_of_walk h

/-- The same path leads to the file that has been written where it leads. -/
theorem follow_put (h : tree.follow path = .ok place) (htarget : place.target? = some location)
    (bytes : List UInt8) :
    (tree.put location (.file bytes)).follow path = .ok (.file location bytes) := by
  unfold follow at h ⊢
  split at h
  · cases h
  next hlength =>
  rw [if_neg hlength]
  exact walk_put h htarget bytes

theorem read_of_follow (h : tree.follow path = .ok (.file location bytes)) :
    tree.read path = .ok bytes := by
  rw [read, h]

/-! ## Files that stay -/

theorem fileAt?_put_of_ne {found : List String} (h : found ≠ location) :
    (tree.put location entry).fileAt? found = tree.fileAt? found := by
  rw [fileAt?, entry?_put_of_ne h, fileAt?]

/-- A new directory takes the place of no file. -/
theorem sameFiles_put_directory (h : tree.entry? location = none) :
    SameFiles tree (tree.put location .directory) := by
  intro found
  by_cases hfound : found = location
  · subst hfound
    have hnone : tree.entry? found ≠ some .directory := by simp [h]
    rw [fileAt?, entry?_put_self (ne_nil_of_not_directory hnone), fileAt?, h]
  · exact fileAt?_put_of_ne hfound

end FileTree

namespace FileChange

open FileTree

variable {tree : FileTree} {path : Path} {bytes : List UInt8}

/-- A change behind another one is made if the first one succeeds. -/
theorem apply_bind (first second : FileChange) (tree : FileTree) :
    apply (do first; second) tree =
      match apply first tree with
      | (.ok (), files) => apply second files
      | (.error fault, files) => (.error fault, files) := by
  have hrun : apply (do first; second) tree =
      apply (ExceptT.bindCont (fun _ => second) (apply first tree).1) (apply first tree).2 := rfl
  rw [hrun]
  rcases apply first tree with ⟨fault | done, files⟩
  · rfl
  · rfl

/-- A change may depend on the files. -/
theorem apply_get (next : FileTree → FileChange) (tree : FileTree) :
    apply (do next (← get)) tree = apply (next tree) tree :=
  rfl

theorem apply_makeDirectory (path : Path) (tree : FileTree) :
    apply (makeDirectory path) tree =
      match tree.follow path with
      | .ok (.vacant location) => (.ok (), tree.put location .directory)
      | .ok _ => (.error ⟨.fileExists, path.text⟩, tree)
      | .error cause => (.error ⟨cause, path.text⟩, tree) := by
  unfold makeDirectory
  rw [apply_get]
  rcases tree.follow path with cause | (location | ⟨location, bytes⟩ | location)
  all_goals rfl

/-- A file is written where a path leads that leads to no directory. -/
theorem apply_write (path : Path) (bytes : List UInt8) (tree : FileTree) :
    apply (write path bytes) tree =
      match tree.follow path with
      | .ok place =>
        match place.target? with
        | some location => (.ok (), tree.put location (.file bytes))
        | none => (.error ⟨.isDirectory, path.text⟩, tree)
      | .error cause => (.error ⟨cause, path.text⟩, tree) := by
  unfold write
  rw [apply_get]
  rcases tree.follow path with cause | (location | ⟨location, old⟩ | location)
  all_goals rfl

/-! ## Directories -/

/-- A change leaves all files as they are, whether it succeeds or not. -/
def KeepsFiles (change : FileChange) : Prop :=
  ∀ tree, SameFiles tree (apply change tree).2

/-- Making a directory touches no file, whether it succeeds or not. -/
theorem keepsFiles_makeDirectory (path : Path) : KeepsFiles (makeDirectory path) := by
  intro tree
  rw [apply_makeDirectory]
  split
  · next location hfollow => exact sameFiles_put_directory (isIn_of_follow hfollow)
  · exact .refl tree
  · exact .refl tree

theorem KeepsFiles.get {next : FileTree → FileChange} (h : ∀ files, KeepsFiles (next files)) :
    KeepsFiles (do next (← get)) :=
  fun tree => h tree tree

/-- Steps that keep the files keep them one after the other. -/
theorem KeepsFiles.bind {first second : FileChange} (h : KeepsFiles first)
    (h' : KeepsFiles second) : KeepsFiles (do first; second) := by
  intro tree
  have hfirst := h tree
  rw [apply_bind]
  rcases hrun : apply first tree with ⟨fault | done, files⟩
  · rw [hrun] at hfirst
    exact hfirst
  · rw [hrun] at hfirst
    exact hfirst.trans (h' files)

theorem keepsFiles_ensureDirectory (path : Path) : KeepsFiles (ensureDirectory path) := by
  refine KeepsFiles.get fun files => ?_
  split
  · exact keepsFiles_makeDirectory path
  · exact .refl

/-- Files stay as they are when directories are made on the way to another one. -/
theorem keepsFiles_ensureDirectories (root : String) (names : List String) :
    KeepsFiles (ensureDirectories root names) := by
  induction names with
  | nil => exact keepsFiles_ensureDirectory _
  | cons name names ih =>
    refine KeepsFiles.get fun files => ?_
    split
    · exact ih.bind (keepsFiles_ensureDirectory _)
    · exact keepsFiles_ensureDirectory _

/-! ## Files -/

/-- A path leads to a file with the given bytes, and no other file has changed. -/
structure Written (before after : FileTree) (path : Path) (bytes : List UInt8) : Prop where
  read : after.read path = .ok bytes
  only : ∃ location, after.follow path = .ok (.file location bytes) ∧
    ∀ other ≠ location, after.fileAt? other = before.fileAt? other

/-- How a write can end: the file is written, or there is a fault and no file has
changed. -/
inductive WriteEnds (before : FileTree) (path : Path) (bytes : List UInt8) :
    Except FileFault Unit × FileTree → Prop where
  | written {after : FileTree} : Written before after path bytes →
      WriteEnds before path bytes (.ok (), after)
  | failed {after : FileTree} (fault : FileFault) : SameFiles before after →
      WriteEnds before path bytes (.error fault, after)

/-- What is prepared without touching a file does not matter to how the writing ends. -/
theorem WriteEnds.of_sameFiles {before between : FileTree}
    {ended : Except FileFault Unit × FileTree} (h : WriteEnds between path bytes ended)
    (hsame : SameFiles before between) : WriteEnds before path bytes ended := by
  cases h with
  | written h =>
    obtain ⟨location, hlead, hothers⟩ := h.only
    exact .written
      ⟨h.read, location, hlead, fun other hne => (hothers other hne).trans (hsame other)⟩
  | failed fault h => exact .failed fault (hsame.trans h)

theorem writeEnds_write (path : Path) (bytes : List UInt8) (tree : FileTree) :
    WriteEnds tree path bytes (apply (write path bytes) tree) := by
  rw [apply_write]
  cases hfollow : tree.follow path with
  | error cause => exact .failed _ (.refl tree)
  | ok place =>
    cases htarget : place.target? with
    | none =>
      simp only [htarget]
      exact .failed _ (.refl tree)
    | some location =>
      have hlead := follow_put hfollow htarget bytes
      simp only [htarget]
      exact .written ⟨read_of_follow hlead, location, hlead, fun other => fileAt?_put_of_ne⟩

/-- A write that makes the directories on the way first ends as a write does. -/
theorem writeEnds_writeDeep (path : Path) (bytes : List UInt8) (tree : FileTree) :
    WriteEnds tree path bytes (apply (writeDeep path bytes) tree) := by
  have hkeeps := keepsFiles_ensureDirectories path.root path.parent.names.reverse tree
  unfold writeDeep
  rw [apply_bind]
  rcases hmade : apply (ensureDirectories path.root path.parent.names.reverse) tree with
    ⟨fault | done, files⟩
  · rw [hmade] at hkeeps
    exact .failed fault hkeeps
  · rw [hmade] at hkeeps
    exact (writeEnds_write path bytes files).of_sameFiles hkeeps

/-! ## Writes that succeed -/

/-- A directory that is there is left as it is. -/
theorem apply_ensureDirectory_of_directory {location : List String}
    (h : tree.follow path = .ok (.directory location)) :
    apply (ensureDirectory path) tree = (.ok (), tree) := by
  have hthere : tree.isDirectory path = true := by rw [isDirectory, h]
  unfold ensureDirectory
  rw [apply_get, hthere]
  rfl

/-- Nothing is made where all directories are there. -/
theorem apply_ensureDirectories_of_directory {root : String} {names location : List String}
    (h : tree.follow ⟨root, names.reverse⟩ = .ok (.directory location)) :
    apply (ensureDirectories root names) tree = (.ok (), tree) := by
  cases names with
  | nil => exact apply_ensureDirectory_of_directory h
  | cons name names =>
    unfold ensureDirectories
    rw [apply_get, h]
    exact apply_ensureDirectory_of_directory h

/-- The path leads to a file or to nothing, in a directory that is there. -/
structure Writable (tree : FileTree) (path : Path) : Prop where
  parent : ∃ location, tree.follow path.parent = .ok (.directory location)
  target : ∃ place location, tree.follow path = .ok place ∧ place.target? = some location

/-- A file that can be written is written. -/
theorem apply_writeDeep_of_writable (h : Writable tree path) (bytes : List UInt8) :
    ∃ after, apply (writeDeep path bytes) tree = (.ok (), after) := by
  obtain ⟨directory, hparent⟩ := h.parent
  obtain ⟨place, location, hfollow, htarget⟩ := h.target
  have hthere : tree.follow ⟨path.root, path.parent.names.reverse.reverse⟩ =
      .ok (.directory directory) := by
    rw [List.reverse_reverse]
    exact hparent
  have hdirectories := apply_ensureDirectories_of_directory hthere
  refine ⟨tree.put location (.file bytes), ?_⟩
  unfold writeDeep
  rw [apply_bind, hdirectories]
  simp only [apply_write, hfollow, htarget]

end FileChange

end DocComment
