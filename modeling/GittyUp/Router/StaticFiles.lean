import GittyUp.Lib.RegexFirst
import GittyUp.Router.Handlers

/-!
# Which file the static handler serves (`static_file_handler.cc`)

`parse_file_info` finds a name and an extension at the end of a URI exactly when
its last segment is one run of word characters, a dot and another run
(`parseFileInfo_eq_some_iff`). Whatever stands before that segment has no part in
the path that is opened: no URI leads out of the directory (`opens_only_children`),
unless a NUL cuts the configured path short, and no URI leads into one below it
(`servesExactly_iff`).
-/

namespace GittyUp

open Lib Regex

/-- One or more word characters. -/
def IsStem (s : Bytes) : Prop := s ≠ [] ∧ ∀ c ∈ s, IsWordChar c

instance : DecidablePred IsStem := fun _ => inferInstanceAs (Decidable (_ ∧ _))

/-- Word characters, a dot, and word characters again. -/
def IsFileName (s : Bytes) : Prop :=
  ∃ name ext, IsStem name ∧ IsStem ext ∧ s = name ++ lit "." ++ ext

/-! ## The regex of `parse_file_info` -/

theorem accepts_stem {pre w post : Bytes} :
    (plus true word).Accepts pre w post ↔ IsStem w := accepts_word

theorem slash_not_mem_stem {s : Bytes} (h : IsStem s) : ('/' : Byte) ∉ s :=
  fun hmem => absurd (h.2 _ hmem) (by decide)

/-- The words of the regex. -/
theorem accepts_fileInfoRegex {pre w post : Bytes} : fileInfoRegex.Accepts pre w post ↔
    ∃ name ext, IsStem name ∧ IsStem ext ∧ w = lit "/" ++ (name ++ (lit "." ++ ext)) ∧
      post = [] := by
  constructor
  · rintro ⟨_, _, rfl, hslash, name, _, rfl, hname, _, _, rfl, ⟨_, _, rfl, hdot, ext, _, rfl, hext,
      rfl⟩, _, _, rfl, ⟨rfl, hpost⟩, rfl⟩
    obtain rfl := accepts_literal.mp hslash
    obtain rfl := accepts_literal.mp hdot
    exact ⟨name, ext, accepts_stem.mp hname, accepts_stem.mp hext, by simp, by simpa using hpost⟩
  · rintro ⟨name, ext, hname, hext, rfl, rfl⟩
    exact ⟨_, _, rfl, accepts_literal.mpr rfl, name, _, rfl, accepts_stem.mpr hname, _, [],
      (List.append_nil _).symm, ⟨_, _, rfl, accepts_literal.mpr rfl, ext, [],
      (List.append_nil _).symm, accepts_stem.mpr hext, rfl⟩, [], [], rfl, ⟨rfl, rfl⟩, rfl⟩

/-- The match at the last segment. -/
theorem first_fileInfoRegex (seen : Bytes) {name ext : Bytes} (hname : IsStem name)
    (hext : IsStem ext) :
    ∃ k, fileInfoRegex.first ⟨seen, lit "/" ++ (name ++ (lit "." ++ ext)), []⟩ = some k ∧
      k.groups = [(2, lit "." ++ ext), (1, name)] := by
  refine ⟨⟨seen ++ lit "/" ++ name ++ (lit "." ++ ext), [], [(2, lit "." ++ ext), (1, name)]⟩,
    ?_, rfl⟩
  rw [fileInfoRegex, concat, first_literal rfl, concat]
  refine first_group_run (w := name) (P := IsWordChar) (ordered_plus (deterministic_char _)) rfl
    within_plus_char rfl ?_ (accepts_stem.mpr hname) ?_
  · intro c hc
    obtain rfl : ('.' : Byte) = c := Option.some.inj hc
    decide
  · -- the extension is all that is left
    have hordered : (concat [literal (lit "."), plus true word]).Ordered true :=
      ordered_seq (deterministic_literal _)
        (ordered_concat_singleton (ordered_plus (deterministic_char _)))
    refine first_group_run (P := fun _ => True) hordered rfl ?_ (List.append_nil _).symm
      (by simp) ?_ rfl
    · exact ⟨⟨fun _ _ => trivial, trivial⟩, ⟨fun _ _ => trivial, fun _ _ => trivial⟩, trivial⟩
    · exact ⟨_, _, rfl, accepts_literal.mpr rfl, ext, [], (List.append_nil _).symm,
        accepts_stem.mpr hext, rfl⟩

/-- **What `parse_file_info` finds**: the two parts of a last segment that is a file
name. -/
theorem parseFileInfo_append (dir : Bytes) {name ext : Bytes} (hname : IsStem name)
    (hext : IsStem ext) :
    parseFileInfo (dir ++ lit "/" ++ name ++ (lit "." ++ ext)) = some (name, lit "." ++ ext) := by
  obtain ⟨k, hk, hgroups⟩ := first_fileInfoRegex dir hname hext
  have hskip : fileInfoRegex.searchFrom [] (dir ++ (lit "/" ++ (name ++ (lit "." ++ ext)))) =
      fileInfoRegex.searchFrom dir (lit "/" ++ (name ++ (lit "." ++ ext))) := by
    refine searchFrom_skip fun u₁ c u₂ _ w v hwv hacc => ?_
    -- a match has no slash but its first character
    obtain ⟨name', ext', hname', hext', rfl, rfl⟩ := accepts_fileInfoRegex.mp hacc
    have htail : u₂ ++ (lit "/" ++ (name ++ (lit "." ++ ext))) = name' ++ (lit "." ++ ext') ++ [] :=
      (List.cons.inj hwv).2
    have hslash : ('/' : Byte) ∈ name' ++ (lit "." ++ ext') ++ [] := by
      rw [← htail]
      simp [lit]
    simp only [List.append_nil, List.mem_append, slash_not_mem_stem hname',
      slash_not_mem_stem hext', false_or, or_false] at hslash
    exact absurd hslash (by decide)
  have hsearch := hskip.trans (searchFrom_of_first hk)
  have htext : dir ++ lit "/" ++ name ++ (lit "." ++ ext) =
      dir ++ (lit "/" ++ (name ++ (lit "." ++ ext))) := by simp
  rw [parseFileInfo, search, htext, hsearch]
  simp only [str_matchTo, hgroups]
  rfl

theorem parseFileInfo_eq_some_iff {uri name extension : Bytes} :
    parseFileInfo uri = some (name, extension) ↔
      ∃ dir ext, uri = dir ++ lit "/" ++ name ++ (lit "." ++ ext) ∧ IsStem name ∧ IsStem ext ∧
        extension = lit "." ++ ext := by
  constructor
  · intro h
    cases hsearch : fileInfoRegex.search uri with
    | none =>
      rw [parseFileInfo, hsearch] at h
      contradiction
    | some m =>
      have hfinds := finds_of_search hsearch
      obtain ⟨name', ext', hname, hext, hmatched, hafter⟩ :=
        accepts_fileInfoRegex.mp hfinds.accepts
      have huri : uri = m.before ++ lit "/" ++ name' ++ (lit "." ++ ext') := by
        rw [hfinds.text_eq, hmatched, hafter]
        simp
      rw [huri, parseFileInfo_append m.before hname hext] at h
      obtain ⟨rfl, rfl⟩ := Prod.mk.inj (Option.some.inj h)
      exact ⟨m.before, ext', huri, hname, hext, rfl⟩
  · rintro ⟨dir, ext, rfl, hname, hext, rfl⟩
    exact parseFileInfo_append dir hname hext

/-! ## The file that is opened -/

/-- `serve_file`, as the program whose queries are the paths that it opens. -/
def serveFileSteps (path : Bytes) (req : Request) :
    Prog Abort Bytes (Option FileEntry) Response :=
  match parseFileInfo req.uri with
  | none => .ret (typedResponse 404 "The requested file could not be found!\n" "text/plain")
  | some (name, extension) =>
    .call (path ++ lit "/" ++ name ++ extension) fun entry => .ret <|
      match entry with
      | none => typedResponse 404 "The requested file could not be found!\n" "text/plain"
      | some t => typedResponse 200 t.content (getMimeType extension)

/-- Its run, where a path is opened as a C string. -/
theorem run_serveFileSteps (files : FileSystem) (path : Bytes) (req : Request) :
    (serveFileSteps path req).run (fun _ opened => (files.entry (cStr opened), ())) () =
      (.ok (serveFile files path req), ()) := by
  unfold serveFileSteps serveFile
  cases parseFileInfo req.uri with
  | none => rfl
  | some info =>
    obtain ⟨name, extension⟩ := info
    show (Except.ok _, ()) = _
    cases files.entry (cStr (path ++ lit "/" ++ name ++ extension)) <;> rfl

/-- A file name directly below the path. -/
def IsChildOf (path opened : Bytes) : Prop :=
  ∃ name, opened = path ++ lit "/" ++ name ∧ IsFileName name ∧ ('/' : Byte) ∉ name ∧
    name ≠ lit "." ∧ name ≠ lit ".."

theorem IsFileName.isChildOf {name : Bytes} (h : IsFileName name) (path : Bytes) :
    IsChildOf path (path ++ lit "/" ++ name) := by
  obtain ⟨stem, ext, hstem, hext, rfl⟩ := id h
  -- a file name begins with a word character
  obtain ⟨c, tail, rfl⟩ := List.exists_cons_of_ne_nil hstem.1
  have hdot : c ≠ '.' := by
    rintro rfl
    exact absurd (hstem.2 _ List.mem_cons_self) (by decide)
  refine ⟨_, rfl, h, ?_, fun heq => hdot (List.cons.inj heq).1,
    fun heq => hdot (List.cons.inj heq).1⟩
  simp only [List.mem_append, slash_not_mem_stem hstem, slash_not_mem_stem hext, false_or, or_false]
  decide

theorem IsFileName.nulFree {name : Bytes} (h : IsFileName name) : NulFree name := by
  obtain ⟨stem, ext, hstem, hext, rfl⟩ := h
  have hnul : ∀ {s : Bytes}, IsStem s → 0 ∉ s := fun hs h0 => absurd (hs.2 0 h0) (by decide)
  simp only [NulFree, List.mem_append, hnul hstem, hnul hext, false_or, or_false]
  decide

theorem nulFree_child {path name : Bytes} (hpath : NulFree path) (hname : NulFree name) :
    NulFree (path ++ lit "/" ++ name) := by
  simp only [NulFree, List.mem_append, not_or] at *
  exact ⟨⟨hpath, by decide⟩, hname⟩

/-- The path of a file name below a directory, as `serve_file` puts it together. -/
theorem path_fileName (path name ext : Bytes) : path ++ lit "/" ++ name ++ (lit "." ++ ext) =
    path ++ lit "/" ++ (name ++ lit "." ++ ext) := by simp

/-- **Static files stay inside their directory**: whatever the URI, every path that
`serve_file` opens is that of a file directly below the configured one, and is
opened as it is unless the configured path has a NUL in it. -/
theorem opens_only_children (path : Bytes) (req : Request) :
    (serveFileSteps path req).Issues (fun opened =>
      IsChildOf path opened ∧ (NulFree path → cStr opened = opened)) ∧
    ∀ files : FileSystem,
      (serveFileSteps path req).run (fun _ opened => (files.entry (cStr opened), ())) () =
        (.ok (serveFile files path req), ()) := by
  refine ⟨?_, fun files => run_serveFileSteps files path req⟩
  unfold serveFileSteps
  cases hinfo : parseFileInfo req.uri with
  | none => trivial
  | some info =>
    obtain ⟨name, extension⟩ := info
    obtain ⟨dir, ext, -, hname, hext, rfl⟩ := parseFileInfo_eq_some_iff.mp hinfo
    have hfile : IsFileName (name ++ lit "." ++ ext) := ⟨name, ext, hname, hext, rfl⟩
    refine ⟨?_, fun _ => trivial⟩
    rw [path_fileName]
    exact ⟨hfile.isChildOf path, fun hpath => cStr_of_nulFree (nulFree_child hpath hfile.nulFree)⟩

/-- A URI that climbs: the file opened is `root/passwd.txt`. -/
theorem opens_only_children_dots :
    parseFileInfo "/static/../../passwd.txt" = some (lit "passwd", lit ".txt") ∧
      IsChildOf "root" "root/passwd.txt" ∧ cStr "root/passwd.txt" = "root/passwd.txt" := by
  have hissues : IsChildOf "root" "root/passwd.txt" ∧
      (NulFree "root" → cStr "root/passwd.txt" = "root/passwd.txt") :=
    (opens_only_children "root" ⟨"", "GET", "/static/../../passwd.txt", ∅, "", ∅, true⟩).1.1
  exact ⟨by decide +kernel, hissues.1, hissues.2 (by decide)⟩

/-- A NUL in the configured path: the file opened is `root`, which is not below
that path. -/
theorem opens_nul_path :
    let path : Bytes := "root\x00x"
    ¬ (serveFileSteps path ⟨"", "GET", "/static/a.txt", ∅, "", ∅, true⟩).Issues
      (fun opened => IsChildOf path (cStr opened)) := by
  intro path hissues
  have hopened : IsChildOf path "root" := hissues.1
  obtain ⟨name, heq, -⟩ := hopened
  have hlength := congrArg List.length heq
  simp [path, lit] at hlength

/-! ## Which file a path below the location gets -/

/-- A GET of `relative` below the location is answered with the file of this path
below the directory, or 404 if there is none. -/
def ServesExactly (files : FileSystem) (path location relative : Bytes) : Prop :=
  ∀ req : Request, req.method = "GET" → req.uri = location ++ lit "/" ++ relative →
    (∀ f, files.entry (path ++ lit "/" ++ relative) = some (.file f) →
      (staticHandleRequest files path req).statusCode = 200 ∧
        (staticHandleRequest files path req).responseBody = f) ∧
    ((∀ f, files.entry (path ++ lit "/" ++ relative) ≠ some (.file f)) →
      (staticHandleRequest files path req).statusCode = 404)

/-- The last segment of `relative` is the file name `name`. -/
def EndsIn (relative name : Bytes) : Prop :=
  IsFileName name ∧ ∃ dir, lit "/" ++ relative = dir ++ lit "/" ++ name

/-- What is at the path `opened` stands in for the file at `asked`: a file with
its bytes if there is one (an empty one may be a directory as well), and nothing
if not. -/
def StandsFor (files : FileSystem) (opened asked : Bytes) : Prop :=
  (∀ f, files.entry asked = some (.file f) →
    (files.entry opened).map FileEntry.content = some f) ∧
  ((∀ f, files.entry asked ≠ some (.file f)) → files.entry opened = none)

/-- What `parse_file_info` finds below a location if the last segment is a file
name. -/
theorem parseFileInfo_of_endsIn {relative name : Bytes} (h : EndsIn relative name)
    (location : Bytes) : ∃ stem ext, name = stem ++ lit "." ++ ext ∧
      parseFileInfo (location ++ lit "/" ++ relative) = some (stem, lit "." ++ ext) := by
  obtain ⟨⟨stem, ext, hstem, hext, rfl⟩, dir, hdir⟩ := h
  have huri : location ++ lit "/" ++ relative =
      location ++ dir ++ lit "/" ++ stem ++ (lit "." ++ ext) := by
    rw [List.append_assoc, hdir]
    simp
  exact ⟨stem, ext, rfl, by rw [huri]; exact parseFileInfo_append (location ++ dir) hstem hext⟩

/-- What `parse_file_info` finds below a location is the last segment. -/
theorem endsIn_of_parseFileInfo {location relative stem extension : Bytes}
    (h : parseFileInfo (location ++ lit "/" ++ relative) = some (stem, extension)) :
    EndsIn relative (stem ++ extension) := by
  obtain ⟨dir, ext, huri, hstem, hext, rfl⟩ := parseFileInfo_eq_some_iff.mp h
  refine ⟨⟨stem, ext, hstem, hext, by simp⟩, ?_⟩
  rw [List.append_assoc, List.append_assoc, List.append_assoc] at huri
  rcases List.append_eq_append_iff.mp huri with ⟨more, rfl, hrelative⟩ | ⟨more, rfl, hname⟩
  · exact ⟨more, by simpa using hrelative⟩
  · -- a slash of the location is not in the name
    cases more with
    | nil => exact ⟨[], by simpa using hname.symm⟩
    | cons c more =>
      have htail : stem ++ (lit "." ++ ext) = more ++ (lit "/" ++ relative) :=
        (List.cons.inj hname).2
      have hslash : ('/' : Byte) ∈ stem ++ (lit "." ++ ext) := by
        rw [htail]
        simp [lit]
      simp only [List.mem_append, slash_not_mem_stem hstem, slash_not_mem_stem hext, false_or,
        or_false] at hslash
      exact absurd hslash (by decide)

/-- Where the last segment is a file name, the answer is what is opened below the
directory itself. -/
theorem staticHandleRequest_endsIn {files : FileSystem} {path location relative name : Bytes}
    (h : EndsIn relative name) {req : Request} (hget : req.method = "GET")
    (huri : req.uri = location ++ lit "/" ++ relative) :
    (files.entry (cStr (path ++ lit "/" ++ name)) = none →
        (staticHandleRequest files path req).statusCode = 404) ∧
      ∀ t, files.entry (cStr (path ++ lit "/" ++ name)) = some t →
        (staticHandleRequest files path req).statusCode = 200 ∧
          (staticHandleRequest files path req).responseBody = t.content := by
  obtain ⟨stem, ext, rfl, hinfo⟩ := parseFileInfo_of_endsIn h location
  rw [staticHandleRequest, if_pos hget, serveFile, huri, hinfo]
  dsimp only
  rw [path_fileName]
  constructor
  · intro hnone
    rw [hnone]
    rfl
  · intro t ht
    rw [ht]
    exact ⟨rfl, rfl⟩

/-- Where it is not, nothing is opened. -/
theorem staticHandleRequest_not_endsIn {files : FileSystem} {path location relative : Bytes}
    (h : ∀ name, ¬ EndsIn relative name) {req : Request} (hget : req.method = "GET")
    (huri : req.uri = location ++ lit "/" ++ relative) :
    (staticHandleRequest files path req).statusCode = 404 := by
  rw [staticHandleRequest, if_pos hget, serveFile, huri]
  cases hinfo : parseFileInfo (location ++ lit "/" ++ relative) with
  | none => rfl
  | some info => exact absurd (endsIn_of_parseFileInfo hinfo) (h _)

/-- A GET of the path. -/
def getRequest (uri : Bytes) : Request := ⟨"", "GET", uri, ∅, "", ∅, true⟩

theorem servesExactly_of_endsIn {files : FileSystem} {path location relative name : Bytes}
    (h : EndsIn relative name) : ServesExactly files path location relative ↔
      StandsFor files (cStr (path ++ lit "/" ++ name)) (path ++ lit "/" ++ relative) := by
  constructor
  · intro hserves
    obtain ⟨hfile, hmissing⟩ := hserves (getRequest (location ++ lit "/" ++ relative)) rfl rfl
    obtain ⟨hnone, hsome⟩ := @staticHandleRequest_endsIn files path _ _ _ h
      (getRequest (location ++ lit "/" ++ relative)) rfl rfl
    constructor
    · intro f hf
      obtain ⟨hstatus, hbody⟩ := hfile f hf
      cases hopened : files.entry (cStr (path ++ lit "/" ++ name)) with
      | none => exact absurd (hstatus.symm.trans (hnone hopened)) (by decide)
      | some t => exact congrArg some ((hsome t hopened).2.symm.trans hbody)
    · intro hno
      by_contra hopened
      obtain ⟨t, ht⟩ := Option.ne_none_iff_exists'.mp hopened
      exact absurd ((hsome t ht).1.symm.trans (hmissing hno)) (by decide)
  · rintro ⟨hfile, hmissing⟩ req hget huri
    obtain ⟨hnone, hsome⟩ := @staticHandleRequest_endsIn files path _ _ _ h req hget huri
    refine ⟨fun f hf => ?_, fun hno => hnone (hmissing hno)⟩
    obtain ⟨t, ht, rfl⟩ := Option.map_eq_some_iff.mp (hfile f hf)
    exact hsome t ht

theorem servesExactly_of_not_endsIn {files : FileSystem} {path location relative : Bytes}
    (h : ∀ name, ¬ EndsIn relative name) : ServesExactly files path location relative ↔
      ∀ f, files.entry (path ++ lit "/" ++ relative) ≠ some (.file f) := by
  constructor
  · intro hserves f hf
    have hstatus := ((hserves (getRequest (location ++ lit "/" ++ relative)) rfl rfl).1 f hf).1
    rw [staticHandleRequest_not_endsIn h rfl rfl] at hstatus
    exact absurd hstatus (by decide)
  · intro hno req hget huri
    exact ⟨fun f hf => absurd hf (hno f), fun _ => staticHandleRequest_not_endsIn h hget huri⟩

theorem IsFileName.endsIn {name : Bytes} (h : IsFileName name) : EndsIn name name :=
  ⟨h, [], rfl⟩

/-- The path that is asked for is the only file: what is served is opened there, and so
under a single file name. -/
theorem isFileName_of_servesExactly {path location relative : Bytes}
    (hnul : NulFree (path ++ lit "/" ++ relative))
    (h : ServesExactly (.single (path ++ lit "/" ++ relative) [] hnul) path location relative) :
    IsFileName relative := by
  let files := FileSystem.single (path ++ lit "/" ++ relative) [] hnul
  have hentry : files.entry (path ++ lit "/" ++ relative) = some (.file []) := if_pos rfl
  by_cases hends : ∃ name, EndsIn relative name
  · obtain ⟨name, hname⟩ := hends
    have hopened := ((servesExactly_of_endsIn hname).mp h).1 [] hentry
    have hsame : cStr (path ++ lit "/" ++ name) = path ++ lit "/" ++ relative := by
      by_contra hne
      have hnone : files.entry (cStr (path ++ lit "/" ++ name)) = none := if_neg hne
      rw [hnone] at hopened
      contradiction
    have hpath : NulFree path := fun h0 => hnul (by simp [h0])
    rw [cStr_of_nulFree (nulFree_child hpath hname.1.nulFree)] at hsame
    exact List.append_cancel_left hsame ▸ hname.1
  · exact absurd hentry ((servesExactly_of_not_endsIn (not_exists.mp hends)).mp h [])

theorem IsFileName.servesExactly {files : FileSystem} {path location relative : Bytes}
    (h : IsFileName relative) (hnul : NulFree (path ++ lit "/" ++ relative))
    (hdir : files.entry (path ++ lit "/" ++ relative) ≠ some .directory) :
    ServesExactly files path location relative := by
  rw [servesExactly_of_endsIn h.endsIn, cStr_of_nulFree hnul]
  refine ⟨fun f hf => by rw [hf]; rfl, fun hno => ?_⟩
  cases hentry : files.entry (path ++ lit "/" ++ relative) with
  | none => rfl
  | some t =>
    cases t with
    | file f => exact absurd hentry (hno f)
    | directory => exact absurd hentry hdir

/-- **A path below a location is served exactly** when its last segment is a file
name and what is opened under that name, directly below the directory, stands for
the file that was asked for, or when the last segment is no such name and there is
no file. Of the paths that no directory is at, those that are a single file name
are served exactly whatever the files are, and no others. -/
theorem servesExactly_iff (path location relative : Bytes) :
    (∀ files, ServesExactly files path location relative ↔
      (∃ name, EndsIn relative name ∧
        StandsFor files (cStr (path ++ lit "/" ++ name)) (path ++ lit "/" ++ relative)) ∨
      (∀ name, ¬ EndsIn relative name) ∧
        ∀ f, files.entry (path ++ lit "/" ++ relative) ≠ some (.file f)) ∧
    (NulFree (path ++ lit "/" ++ relative) →
      ((∀ files, files.entry (path ++ lit "/" ++ relative) ≠ some .directory →
        ServesExactly files path location relative) ↔ IsFileName relative)) := by
  refine ⟨fun files => ?_, fun hnul => ⟨fun h => ?_, fun h _ hdir => h.servesExactly hnul hdir⟩⟩
  · by_cases hends : ∃ name, EndsIn relative name
    · obtain ⟨name, hname⟩ := hends
      rw [servesExactly_of_endsIn hname]
      constructor
      · exact fun h => .inl ⟨name, hname, h⟩
      · rintro (⟨name', hname', h⟩ | ⟨hno, -⟩)
        · have hserves : ServesExactly files path location relative :=
            (servesExactly_of_endsIn hname').mpr h
          exact (servesExactly_of_endsIn hname).mp hserves
        · exact absurd hname (hno name)
    · have hno := not_exists.mp hends
      rw [servesExactly_of_not_endsIn hno]
      constructor
      · exact fun h => .inr ⟨hno, h⟩
      · rintro (⟨name, hname, -⟩ | ⟨-, h⟩)
        · exact absurd hname (hno name)
        · exact h
  · have hentry : (FileSystem.single (path ++ lit "/" ++ relative) [] hnul).entry
        (path ++ lit "/" ++ relative) = some (.file []) := if_pos rfl
    exact isFileName_of_servesExactly hnul (h _ (by rw [hentry]; simp))

/-- `f.txt` is asked for, and there. -/
theorem servesExactly_file :
    ServesExactly (.single "root/f.txt" "abc" (by decide)) "root" "/static" "f.txt" :=
  ((servesExactly_iff "root" "/static" "f.txt").2 (by decide)).mpr
    ⟨"f", "txt", by decide, by decide, rfl⟩ _ (by decide)

/-- Only `d/f.txt` is asked for, and only `f.txt` is there. -/
theorem not_servesExactly_directory :
    let files : FileSystem := .single "root/f.txt" "abc" (by decide)
    let req : Request := getRequest "/static/d/f.txt"
    files.entry "root/d/f.txt" = none ∧
      (staticHandleRequest files "root" req).statusCode = 200 ∧
      (staticHandleRequest files "root" req).responseBody = "abc" ∧
      ¬ ServesExactly files "root" "/static" "d/f.txt" := by
  intro files req
  have hnone : files.entry "root/d/f.txt" = none := by decide +kernel
  have hserved : (staticHandleRequest files "root" req).statusCode = 200 := by decide +kernel
  refine ⟨hnone, hserved, by decide +kernel, fun h => ?_⟩
  have hstatus := (h req rfl rfl).2 fun f hf => by
    rw [show files.entry (lit "root" ++ lit "/" ++ lit "d/f.txt") = none from hnone] at hf
    contradiction
  rw [hserved] at hstatus
  exact absurd hstatus (by decide)

end GittyUp
