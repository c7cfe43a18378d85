import Mathlib.Data.List.Basic
import KeySmith.FileSystem
import KeySmith.Proofs.Outcome

/-!
# Writing files

A write is refused and changes nothing, or it leaves a file with the beginning of the content at its
path, and with all of the content if it does not fail.  Other paths are as before in any case.
-/

namespace KeySmith

/-! ### Paths -/

namespace Path

/-- Whether a file may stand at a path: the path is not a root and does not ask for a directory. -/
def IsFilePath (p : Path) : Prop :=
  p ≠ [] ∧ p ≠ ["/"] ∧ p.getLast? ≠ some "."

theorem go_of_not_mem {cs : List Char} (h : '/' ∉ cs) (piece : List Char) :
    pieces.go cs piece = [String.ofList (piece.reverse ++ cs)] := by
  induction cs generalizing piece with
  | nil => rw [pieces.go, List.append_nil]
  | cons c rest ih =>
    have hc : c ≠ '/' := fun hc => h (hc ▸ List.mem_cons_self)
    rw [pieces.go.eq_3 _ _ _ hc, ih (fun hrest => h (List.mem_cons_of_mem c hrest)),
      List.reverse_cons, List.append_assoc, List.singleton_append]

/-- What is written behind a path without a slash belongs to its last piece. -/
theorem exists_go_append (cs : List Char) {suffix : List Char} (h : '/' ∉ suffix)
    (piece : List Char) :
    ∃ before last, pieces.go cs piece = before ++ [last] ∧
      pieces.go (cs ++ suffix) piece = before ++ [last ++ String.ofList suffix] := by
  induction cs generalizing piece with
  | nil =>
    refine ⟨[], String.ofList piece.reverse, rfl, ?_⟩
    rw [List.nil_append, go_of_not_mem h, String.ofList_append, List.nil_append]
  | cons c rest ih =>
    by_cases hc : c = '/'
    · subst hc
      obtain ⟨before, last, hgo, happend⟩ := ih []
      refine ⟨String.ofList piece.reverse :: before, last, ?_, ?_⟩
      · rw [pieces.go, hgo, List.cons_append]
      · rw [List.cons_append, pieces.go, happend, List.cons_append]
    · rw [List.cons_append, pieces.go.eq_3 _ _ _ hc, pieces.go.eq_3 _ _ _ hc]
      exact ih (c :: piece)

/-- A path whose last piece is a name ends in it. -/
theorem getLast?_ofString {s : String} {before : List String} {last : String}
    (hpieces : pieces s.toList = before ++ [last]) (hlast : isIdle last = false) :
    (ofString s).getLast? = some last := by
  simp [ofString, hpieces, hlast, List.filter_append]

/-- A path whose last piece is idle ends in no name. -/
theorem getLast?_ofString_of_isIdle {s : String} {before : List String} {last : String}
    (hpieces : pieces s.toList = before ++ [last]) (hlast : isIdle last = true) {part : String}
    (hpart : (ofString s).getLast? = some part) : part = "/" ∨ part = "." := by
  simp only [ofString, hpieces, List.getLast?_concat, Option.map_some, hlast, List.filter_append,
    List.filter_cons, List.filter_nil, Bool.not_true, Option.getD_some, Bool.and_true] at hpart
  rcases hnamed : (before.filter (!isIdle ·)) with _ | ⟨first, rest⟩
  · rw [hnamed] at hpart
    split at hpart
    · left
      simpa using hpart.symm
    · simp at hpart
  · right
    rw [hnamed] at hpart
    simp only [Bool.false_eq_true, if_false, List.append_nil, List.isEmpty_cons, Bool.not_false,
      if_true, List.getLast?_concat, Option.some.injEq] at hpart
    exact hpart.symm

/-- A path with letters behind its last piece is another path. -/
theorem ofString_append_ne (s : String) {suffix : String} (hsuffix : '/' ∉ suffix.toList)
    (hlong : 1 < suffix.length) : ofString (s ++ suffix) ≠ ofString s := by
  intro h
  obtain ⟨before, last, hpieces, happend⟩ := exists_go_append s.toList hsuffix []
  have hlength : 1 < (last ++ suffix).length := by
    rw [String.length_append]
    omega
  have hidle : isIdle (last ++ suffix) = false := by
    rw [isIdle, Bool.or_eq_false_iff, beq_eq_false_iff_ne, beq_eq_false_iff_ne]
    constructor
    · intro hempty
      rw [hempty] at hlength
      exact absurd hlength (by decide)
    · intro hpoint
      rw [hpoint] at hlength
      exact absurd hlength (by decide)
  have hpiecesAppend : pieces (s ++ suffix).toList = before ++ [last ++ suffix] := by
    rw [pieces, String.toList_append, happend, String.ofList_toList]
  have hend : (ofString (s ++ suffix)).getLast? = some (last ++ suffix) :=
    getLast?_ofString hpiecesAppend hidle
  rw [h] at hend
  rcases hlast : isIdle last with _ | _
  · rw [getLast?_ofString hpieces hlast, Option.some.injEq] at hend
    have hsame := congrArg String.length hend
    rw [String.length_append] at hsame
    omega
  · rcases getLast?_ofString_of_isIdle hpieces hlast hend with hslash | hpoint
    · rw [hslash] at hlength
      exact absurd hlength (by decide)
    · rw [hpoint] at hlength
      exact absurd hlength (by decide)

/-- The named parts of a path do not end in a point. -/
theorem getLast?_named_ne (root : Path) (hroot : root.getLast? ≠ some ".") (ps : List String) :
    (root ++ ps.filter (!isIdle ·)).getLast? ≠ some "." := by
  intro hpoint
  rw [List.getLast?_append, Option.or_eq_some_iff] at hpoint
  rcases hpoint with hnamed | ⟨-, hnone⟩
  · have hmem := List.mem_of_getLast? hnamed
    rw [List.mem_filter] at hmem
    exact absurd hmem.2 (by decide)
  · exact hroot hnone

/-- Only the last part of a path may be a point. -/
theorem getLast?_dropLast_ofString {s : String} (h : (ofString s).getLast? = some ".") :
    (ofString s).dropLast.getLast? ≠ some "." := by
  have hroot : (if s.toList.head? = some '/' then ["/"] else []).getLast? ≠ some "." := by
    split
    · decide
    · decide
  have hnamed := getLast?_named_ne _ hroot (pieces s.toList)
  unfold ofString at h
  extract_lets ps named root last at h
  have hs : ofString s = root ++ named ++ last := rfl
  by_cases hlast : !named.isEmpty && (ps.getLast?.map isIdle).getD false
  · rw [hs, show last = ["."] from if_pos hlast, List.dropLast_concat]
    exact hnamed
  · rw [show last = [] from if_neg hlast, List.append_nil] at h
    exact absurd h hnamed

end Path

namespace FileSystem

variable {fs after : FileSystem} {p q : Path} {name : String} {content : Bytes} {mode : Nat}

/-! ### Entries -/

theorem listed?_insert_self (hp : p ≠ [] ∧ p ≠ ["/"]) (e : Entry) :
    (fs.insert p e).listed? p = some e := by
  rw [listed?, if_neg (by simp [hp]), insert, List.find?_cons_of_pos (by simp)]
  rfl

theorem listed?_insert_of_ne (h : q ≠ p) (e : Entry) :
    (fs.insert p e).listed? q = fs.listed? q := by
  have hother : ((p, e) :: fs.entries.filter (·.1 != p)).find? (·.1 == q) =
      fs.entries.find? (·.1 == q) := by
    rw [List.find?_cons_of_neg (by simpa using h.symm), List.find?_filter]
    congr 1
    funext entry
    by_cases hentry : entry.1 = q
    · simp [hentry, h]
    · simp [hentry]
  rw [listed?, listed?, insert, hother]

/-- A file that is put at a path is found there. -/
theorem find?_insert_self (hp : p.IsFilePath) (e : Entry) : (fs.insert p e).find? p = some e := by
  rw [find?, if_neg hp.2.2, listed?_insert_self ⟨hp.1, hp.2.1⟩]

/-- A file in the place of no directory changes nothing at other paths. -/
theorem find?_insert_of_ne (h : q ≠ p) (hp : p.IsFilePath) (hfound : fs.find? p ≠ some .directory) :
    (fs.insert p (.file content mode)).find? q = fs.find? q := by
  rw [find?, if_neg hp.2.2] at hfound
  unfold find?
  split
  · by_cases hdrop : q.dropLast = p
    · rw [hdrop, listed?_insert_self ⟨hp.1, hp.2.1⟩]
      rcases hold : fs.listed? p with _ | _ | _
      · rfl
      · rfl
      · exact absurd hold hfound
    · rw [listed?_insert_of_ne hdrop]
  · rw [listed?_insert_of_ne h]

/-! ### Opening -/

/-- Where a file stands a file may stand. -/
theorem isFilePath_of_find? (h : fs.find? p = some (.file content mode)) : p.IsFilePath := by
  have hroot (hp : p = [] ∨ p = ["/"]) : fs.listed? p ≠ some (.file content mode) := by
    rw [listed?, if_pos hp]
    simp
  by_cases hpoint : p.getLast? = some "."
  · rw [find?, if_pos hpoint, Option.filter_eq_some_iff] at h
    exact absurd h.2 (by simp)
  · rw [find?, if_neg hpoint] at h
    exact ⟨fun hp => hroot (.inl hp) h, fun hp => hroot (.inr hp) h, hpoint⟩

/-- Where nothing stands in a directory a file may stand. -/
theorem isFilePath_of_find?_eq_none {name : String} (h : fs.find? (.ofString name) = none)
    (hparent : fs.find? (Path.ofString name).dropLast = some .directory) :
    (Path.ofString name).IsFilePath := by
  have hpoint : (Path.ofString name).getLast? ≠ some "." := by
    intro hpoint
    rw [find?, if_neg (Path.getLast?_dropLast_ofString hpoint)] at hparent
    rw [find?, if_pos hpoint, hparent] at h
    simp at h
  have hroot (hp : Path.ofString name = [] ∨ Path.ofString name = ["/"]) : False := by
    rw [find?, if_neg hpoint, listed?, if_pos hp] at h
    cases h
  exact ⟨fun hp => hroot (.inl hp), fun hp => hroot (.inr hp), hpoint⟩

/-- What is opened to be written is no directory and may be a file. -/
theorem isFilePath_of_openFor {newMode : Nat} (h : fs.openFor name newMode = .ok mode) :
    (Path.ofString name).IsFilePath ∧ fs.find? (.ofString name) ≠ some .directory := by
  unfold openFor at h
  extract_lets p at h
  split at h
  · cases h
  · split at h
    · cases h
    · split at h
      · cases h
      · rename_i content found hfound
        exact ⟨isFilePath_of_find? hfound, by rw [hfound]; simp⟩
      · rename_i hfound
        split at h
        · rename_i hparent
          exact ⟨isFilePath_of_find?_eq_none hfound hparent.1, by rw [hfound]; simp⟩
        · cases h

/-! ### Writing -/

/-- What the writing of a content into a file leads to. -/
inductive Write (fs : FileSystem) (name : String) (newMode : Nat) (content : Bytes) :
    Result Unit × FileSystem → Prop
  /-- The file cannot be opened. -/
  | refused {f : FileFault} (hopen : fs.openFor name newMode = .error f) :
      Write fs name newMode content (.error (.file f), fs)
  /-- The file has been opened, and the beginning of the content or all of it has been stored before
  the write broke off. -/
  | cut {found : Nat} (hopen : fs.openFor name newMode = .ok found)
      (hbreak : (fs.break? (.ofString name)).isSome) (f : FileFault) {stored : Bytes}
      (hstored : stored <+: content) (mode : Nat) :
      Write fs name newMode content
        (.error (.file f), fs.insert (.ofString name) (.file stored mode))
  | done {found : Nat} (hopen : fs.openFor name newMode = .ok found) (mode : Nat) :
      Write fs name newMode content (.ok (), fs.insert (.ofString name) (.file content mode))

/-- In a file that has been opened a content is stored up to the end or to where the write breaks
off. -/
theorem write_store {newMode found : Nat} (hopen : fs.openFor name newMode = .ok found)
    (content : Bytes) (mode : Nat) :
    Write fs name newMode content (fs.store (.ofString name) content mode) := by
  unfold store
  split
  · rename_i room hbreak
    split
    · exact .cut hopen (by rw [hbreak]; rfl) _ (List.take_prefix room content) mode
    · exact .done hopen mode
  · exact .done hopen mode

theorem write_put (fs : FileSystem) (name : String) (content : Bytes) (newMode : Nat) :
    Write fs name newMode content (fs.put name content newMode) := by
  unfold put
  split
  · rename_i f hopen
    exact .refused hopen
  · rename_i mode hopen
    exact write_store hopen content mode

theorem write_putAs (fs : FileSystem) (name : String) (content : Bytes) (mode : Nat) :
    Write fs name mode content (fs.putAs name content mode) := by
  unfold putAs
  extract_lets p
  split
  · rename_i f hopen
    exact .refused hopen
  · rename_i found hopen
    split
    · rename_i hbreak
      exact .cut hopen (by rw [hbreak]; rfl) _ List.nil_prefix found
    · split
      · rename_i hbreak
        exact .cut hopen (by rw [hbreak]; rfl) _ List.prefix_rfl mode
      · exact write_store hopen content mode

/-- The file with a content stands at a path. -/
def Holds (fs : FileSystem) (p : Path) (content : Bytes) : Prop :=
  ∃ mode, fs.find? p = some (.file content mode)

/-- A file with the beginning of a content stands at a path, where a write breaks off. -/
def HoldsBeginning (fs : FileSystem) (p : Path) (content : Bytes) : Prop :=
  (fs.break? p).isSome ∧ ∃ stored, stored <+: content ∧ fs.Holds p stored

namespace Write

variable {newMode : Nat} {r : Result Unit}

/-- A write changes nothing at other paths. -/
theorem find?_of_ne (h : Write fs name newMode content (r, after)) (hq : q ≠ .ofString name) :
    after.find? q = fs.find? q := by
  cases h with
  | refused hopen => rfl
  | cut hopen hbreak f hstored mode =>
    rcases isFilePath_of_openFor hopen with ⟨hp, hfound⟩
    exact find?_insert_of_ne hq hp hfound
  | done hopen mode =>
    rcases isFilePath_of_openFor hopen with ⟨hp, hfound⟩
    exact find?_insert_of_ne hq hp hfound

/-- A write that does not fail leaves the content. -/
theorem holds_of_ok (h : Write fs name newMode content (.ok (), after)) :
    after.Holds (.ofString name) content := by
  cases h with
  | done hopen mode => exact ⟨mode, find?_insert_self (isFilePath_of_openFor hopen).1 _⟩

/-- A write that fails leaves everything as it was, or the beginning of the content where it broke
off. -/
theorem of_error {e : Error} (h : Write fs name newMode content (.error e, after)) :
    (∃ f, e = .file f) ∧ (after = fs ∨ after.HoldsBeginning (.ofString name) content) := by
  cases h with
  | refused hopen => exact ⟨⟨_, rfl⟩, .inl rfl⟩
  | @cut _ hopen hbreak f stored hstored mode =>
    have hp := (isFilePath_of_openFor hopen).1
    exact ⟨⟨f, rfl⟩, .inr ⟨hbreak, stored, hstored, mode, find?_insert_self hp _⟩⟩

/-- A file that can be opened, and where no write breaks off, is written. -/
theorem exists_ok {outcome : Result Unit × FileSystem} (h : Write fs name newMode content outcome)
    (hopen : fs.openFor name newMode = .ok mode) (hbreak : fs.break? (.ofString name) = none) :
    ∃ after, outcome = (.ok (), after) := by
  cases h with
  | refused hrefused =>
    rw [hopen] at hrefused
    cases hrefused
  | cut hopened hbroken f hstored mode =>
    rw [hbreak] at hbroken
    cases hbroken
  | done hopened mode => exact ⟨_, rfl⟩

/-- A file that cannot be opened is not written, and nothing changes. -/
theorem of_openFor_eq_error {f : FileFault} (h : Write fs name newMode content (r, after))
    (hopen : fs.openFor name newMode = .error f) : r = .error (.file f) ∧ after = fs := by
  cases h with
  | @refused g hrefused =>
    rw [hopen, Except.error.injEq] at hrefused
    exact ⟨by rw [hrefused], rfl⟩
  | cut hopened hbreak g hstored mode =>
    rw [hopen] at hopened
    cases hopened
  | done hopened mode =>
    rw [hopen] at hopened
    cases hopened

end Write

/-! ### Reading -/

/-- The content of a file that stands at a path is read. -/
theorem Holds.read {name : String} (h : fs.Holds (.ofString name) content) :
    fs.read name = .ok content := by
  rcases h with ⟨mode, h⟩
  have hname : name ≠ "" := by
    rintro rfl
    exact absurd rfl (isFilePath_of_find? h).1
  unfold FileSystem.read
  extract_lets p
  rw [if_neg hname]
  simp only [p, h]

end FileSystem

end KeySmith
