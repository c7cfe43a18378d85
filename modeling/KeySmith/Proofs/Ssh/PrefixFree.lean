import KeySmith.Proofs.Ssh.Container

/-!
# Prefix freeness of the binary SSH formats

A reader of fields is *self-delimiting* when the octets it takes tell it where to stop: it takes the
same ones whatever follows, and runs out of octets on anything shorter.  A reader *of all* octets is
built from those by a check that nothing is left.  Both properties pass through sequences and
branches, so that they hold of the readers of public key blobs and of containers, and no octet
string that one of these accepts is the beginning of another one.
-/

namespace KeySmith.Ssh

variable {ε α β : Type} {cut : ε} {trailing : Nat → ε}

/-! ### Readers that run out of octets -/

/-- Whether a reader has the given error on every proper beginning of some octets. -/
def RunsOut (cut : ε) (r : StateT Bytes (Except ε) α) (bs : Bytes) : Prop :=
  ∀ ⦃p q⦄, p ++ q = bs → q ≠ [] → r p = .error cut

/-- Nothing has no proper beginning. -/
theorem runsOut_nil (cut : ε) (r : StateT Bytes (Except ε) α) : RunsOut cut r [] := by
  intro p q hpq hq
  exact absurd (List.append_eq_nil_iff.mp hpq).2 hq

/-- If the first reader has an error, so do two readers. -/
theorem reader_bind_eq_error {m : StateT Bytes (Except ε) α} {f : α → StateT Bytes (Except ε) β}
    {bs : Bytes} {e : ε} (h : m bs = .error e) : (m >>= f) bs = .error e := by
  change (m bs >>= fun p => f p.1 p.2) = _
  rw [h]
  rfl

/-- If the first reader succeeds, the second one goes on with what is left. -/
theorem reader_bind_of_ok {m : StateT Bytes (Except ε) α} {f : α → StateT Bytes (Except ε) β}
    {bs mid : Bytes} {a : α} (h : m bs = .ok (a, mid)) : (m >>= f) bs = f a mid := by
  change (m bs >>= fun p => f p.1 p.2) = _
  rw [h]
  rfl

/-- Two readers run out where the first one does, and behind what it takes where the second one
does. -/
theorem RunsOut.bind {m : StateT Bytes (Except ε) α} {f : α → StateT Bytes (Except ε) β}
    {head tail : Bytes} {a : α} (hhead : ∀ t, m (head ++ t) = .ok (a, t))
    (hm : RunsOut cut m head) (hf : RunsOut cut (f a) tail) :
    RunsOut cut (m >>= f) (head ++ tail) := by
  intro p q hpq hq
  obtain ⟨c, rfl, rfl⟩ | ⟨c, rfl, rfl⟩ := List.append_eq_append_iff.mp hpq
  · by_cases hc : c = []
    · -- the cut is right behind the octets of the first reader
      subst hc
      have hall : m p = .ok (a, []) := by simpa using hhead []
      rw [reader_bind_of_ok hall]
      exact hf (List.nil_append tail) (by simpa using hq)
    · exact reader_bind_eq_error (hm rfl hc)
  · rw [reader_bind_of_ok (hhead c)]
    exact hf rfl hq

/-! ### Self-delimiting readers -/

/-- Whether what a reader took is what it takes in front of any other octets, and it runs out on
every shorter beginning. -/
def SelfDelimiting (cut : ε) (r : StateT Bytes (Except ε) α) : Prop :=
  ∀ ⦃bs a rest⦄, r bs = .ok (a, rest) →
    ∃ used, bs = used ++ rest ∧ (∀ t, r (used ++ t) = .ok (a, t)) ∧ RunsOut cut r used

namespace SelfDelimiting

/-- A reader that takes nothing is self-delimiting. -/
theorem of_eq_map {r : StateT Bytes (Except ε) α} {x : Except ε α}
    (h : ∀ bs, r bs = x.map (·, bs)) : SelfDelimiting cut r := by
  intro bs a rest hr
  rw [h] at hr
  cases x with
  | error e => cases hr
  | ok b =>
    cases hr
    exact ⟨[], rfl, h, runsOut_nil cut r⟩

/-- A value is read from nothing. -/
theorem pure (a : α) : SelfDelimiting cut (pure a : StateT Bytes (Except ε) α) :=
  of_eq_map (x := .ok a) fun _ => rfl

/-- A thrown error is no success. -/
theorem throw (e : ε) : SelfDelimiting cut (throw e : StateT Bytes (Except ε) α) :=
  of_eq_map (x := .error e) fun _ => rfl

/-- A self-delimiting reader followed by others is self-delimiting. -/
theorem bind {m : StateT Bytes (Except ε) α} {f : α → StateT Bytes (Except ε) β}
    (hm : SelfDelimiting cut m) (hf : ∀ a, SelfDelimiting cut (f a)) :
    SelfDelimiting cut (m >>= f) := by
  intro bs b rest h
  obtain ⟨a, mid, hfirst, hsecond⟩ := reader_bind_eq_ok_iff.mp h
  obtain ⟨head, rfl, hhead, hheadCut⟩ := hm hfirst
  obtain ⟨tail, rfl, htail, htailCut⟩ := hf a hsecond
  refine ⟨head ++ tail, (List.append_assoc head tail rest).symm, ?_, .bind hhead hheadCut htailCut⟩
  intro t
  rw [List.append_assoc, reader_bind_of_ok (hhead (tail ++ t))]
  exact htail t

/-- Both branches of a self-delimiting reader may be taken. -/
theorem ite {c : Prop} [Decidable c] {r s : StateT Bytes (Except ε) α}
    (hr : SelfDelimiting cut r) (hs : SelfDelimiting cut s) :
    SelfDelimiting cut (if c then r else s) := by
  split
  · exact hr
  · exact hs

/-! ### Fields -/

/-- A known number of octets is self-delimiting. -/
theorem take (count : Nat) : SelfDelimiting .truncated (Reader.take count) := by
  intro bs a rest h
  obtain ⟨rfl, hlen⟩ := Reader.take_eq_ok_iff.mp h
  refine ⟨a, rfl, ?_, ?_⟩
  · intro t
    exact Reader.take_eq_ok_iff.mpr ⟨rfl, hlen⟩
  · intro p q hpq hq
    have hshort : p.length < count := by
      have hpos := List.length_pos_of_ne_nil hq
      rw [← hlen, ← hpq, List.length_append]
      omega
    rw [Reader.take, if_pos hshort]

theorem uint32 : SelfDelimiting .truncated Reader.uint32 :=
  (take 4).bind fun _ => pure _

theorem string : SelfDelimiting .truncated Reader.string :=
  uint32.bind fun _ => take _

theorem text : SelfDelimiting .truncated Reader.text := by
  refine string.bind fun bs => ?_
  split
  · exact pure _
  · exact throw _

theorem magnitude : SelfDelimiting .truncated Reader.magnitude :=
  string.bind fun _ => (throw _).ite (pure _)

theorem natural : SelfDelimiting .truncated Reader.natural :=
  magnitude.bind fun _ => pure _

/-! ### Parts of keys -/

/-- Fields on the way to a key are self-delimiting. -/
theorem fields {r : Reader α} (hr : SelfDelimiting .truncated r) :
    SelfDelimiting (wireError .truncated) (fields r) := by
  intro bs a rest h
  obtain ⟨used, rfl, hused, hcut⟩ := hr (fields_eq_ok_iff.mp h)
  refine ⟨used, rfl, ?_, ?_⟩
  · intro t
    exact fields_eq_ok_iff.mpr (hused t)
  · intro p q hpq hq
    rw [Ssh.fields, hcut hpq hq]
    rfl

/-- A part of a key is built from nothing more. -/
theorem built {cut : Error} (r : Result α) : SelfDelimiting cut (built r) :=
  of_eq_map fun _ => rfl

theorem readPoint (c : Curve) : SelfDelimiting (wireError .truncated) (readPoint c) :=
  text.fields.bind fun _ => string.fields.ite (built _)

/-- The public key behind a type name is self-delimiting. -/
theorem readPublic (name : String) : SelfDelimiting (wireError .truncated) (readPublic name) := by
  refine ite ?_ (ite ?_ ?_)
  · exact string.fields.bind fun _ => (built _).bind fun _ => (built _).bind fun _ => pure _
  · exact natural.fields.bind fun _ => natural.fields.bind fun _ => (built _).bind fun _ => pure _
  · exact (built _).bind fun c => (readPoint c).bind fun _ => (built _).bind fun _ => pure _

end SelfDelimiting

/-! ### Readers of all octets -/

/-- Whether a reader takes all octets that it is given: it has an error that names their number when
more follow, and runs out on every shorter beginning. -/
def ReadsAll (cut : ε) (trailing : Nat → ε) (r : StateT Bytes (Except ε) α) : Prop :=
  ∀ ⦃bs a rest⦄, r bs = .ok (a, rest) →
    (∀ t, t ≠ [] → r (bs ++ t) = .error (trailing t.length)) ∧ RunsOut cut r bs

namespace ReadsAll

/-- A reader that never succeeds reads all. -/
theorem of_ne_ok {r : StateT Bytes (Except ε) α} (h : ∀ bs p, r bs ≠ .ok p) :
    ReadsAll cut trailing r :=
  fun bs _ _ hr => absurd hr (h bs _)

/-- A reader of all octets may follow a self-delimiting one. -/
theorem bind {m : StateT Bytes (Except ε) α} {f : α → StateT Bytes (Except ε) β}
    (hm : SelfDelimiting cut m) (hf : ∀ a, ReadsAll cut trailing (f a)) :
    ReadsAll cut trailing (m >>= f) := by
  intro bs b rest h
  obtain ⟨a, mid, hfirst, hsecond⟩ := reader_bind_eq_ok_iff.mp h
  obtain ⟨head, rfl, hhead, hheadCut⟩ := hm hfirst
  obtain ⟨hmore, htailCut⟩ := hf a hsecond
  refine ⟨?_, .bind hhead hheadCut htailCut⟩
  intro t ht
  rw [List.append_assoc, reader_bind_of_ok (hhead (mid ++ t))]
  exact hmore t ht

/-- Both branches of a reader of all octets may be taken. -/
theorem ite {c : Prop} [Decidable c] {r s : StateT Bytes (Except ε) α}
    (hr : ReadsAll cut trailing r) (hs : ReadsAll cut trailing s) :
    ReadsAll cut trailing (if c then r else s) := by
  split
  · exact hr
  · exact hs

/-- An error instead of a part of a key is no success. -/
theorem built_error {cut : Error} {trailing : Nat → Error} (e : Error) :
    ReadsAll cut trailing (built (.error e : Result α)) :=
  of_ne_ok fun _ _ h => by cases h

/-- The check that nothing is left reads all. -/
theorem finish (a : α) : ReadsAll (wireError .truncated) (fun n => wireError (.trailing n))
    (fields Reader.finish >>= fun _ => pure a) := by
  intro bs b rest h
  obtain ⟨_, _, hfinish, -⟩ := reader_bind_eq_ok_iff.mp h
  obtain ⟨rfl, -⟩ := Reader.finish_eq_ok_iff.mp (fields_eq_ok_iff.mp hfinish)
  refine ⟨?_, runsOut_nil _ _⟩
  intro t ht
  apply reader_bind_eq_error
  rw [List.nil_append, fields, Reader.finish, if_neg (by simpa using ht)]
  rfl

end ReadsAll

/-! ### Blobs and containers -/

/-- The type name, the public key behind it and nothing else are all of a blob. -/
theorem readsAll_blob : ReadsAll (wireError .truncated) (fun n => wireError (.trailing n)) (do
    let name ← fields Reader.text
    let key ← readPublic name
    fields Reader.finish
    return key : KeyReader Key) :=
  .bind SelfDelimiting.text.fields fun name => .bind (.readPublic name) fun key => .finish key

/-- The public key blob and the private block are all of a container behind the magic text. -/
theorem Container.readsAll_readOuter :
    ReadsAll (wireError .truncated) (fun n => wireError (.trailing n)) Container.readOuter := by
  have hstring := SelfDelimiting.string.fields
  refine .bind SelfDelimiting.text.fields fun cipher => .bind SelfDelimiting.text.fields fun kdf =>
    .bind hstring fun _ => .ite (.built_error _) ?_
  refine .bind SelfDelimiting.uint32.fields fun count => .ite (.built_error _) ?_
  exact .bind hstring fun blob => .bind hstring fun block => .finish (blob, block)

/-- A blob with something behind it is refused, with the number of octets behind it. -/
theorem decodeBlob_append {bs t : Bytes} {k : Key} (h : decodeBlob bs = .ok k) (ht : t ≠ []) :
    decodeBlob (bs ++ t) = .error (wireError (.trailing t.length)) := by
  obtain ⟨⟨_, rest⟩, hread, -⟩ := map_eq_ok_iff.mp h
  obtain ⟨hmore, -⟩ := readsAll_blob hread
  rw [decodeBlob, StateT.run, hmore t ht]
  rfl

/-- A proper beginning of a blob is truncated. -/
theorem decodeBlob_of_append {bs t : Bytes} {k : Key} (h : decodeBlob (bs ++ t) = .ok k)
    (ht : t ≠ []) : decodeBlob bs = .error (wireError .truncated) := by
  obtain ⟨⟨_, rest⟩, hread, -⟩ := map_eq_ok_iff.mp h
  obtain ⟨-, hcut⟩ := readsAll_blob hread
  rw [decodeBlob, StateT.run, hcut rfl ht]
  rfl

namespace Container

variable {bs t : Bytes} {c : Container}

/-- What is read as a container is the magic text and what the outer reader accepts. -/
theorem exists_readOuter (h : decode bs = .ok c) :
    ∃ outer p, bs = magic ++ outer ∧ readOuter outer = .ok p := by
  unfold decode at h
  simp only [guard_eq_ok_iff, bind_eq_ok_iff, Bool.not_eq_true', Bool.not_eq_false,
    List.isPrefixOf_iff_prefix] at h
  obtain ⟨⟨outer, rfl⟩, p, hread, -⟩ := h
  rw [List.drop_left] at hread
  exact ⟨outer, p, rfl, hread⟩

/-- An error of the outer reader is one of the container. -/
theorem decode_of_readOuter_eq_error {outer : Bytes} {e : Error} (h : readOuter outer = .error e) :
    decode (magic ++ outer) = .error e := by
  have hmagic : magic.isPrefixOf (magic ++ outer) = true :=
    List.isPrefixOf_iff_prefix.mpr (List.prefix_append magic outer)
  unfold decode
  rw [hmagic, List.drop_left, h]
  rfl

/-- A container with something behind it is refused, with the number of octets behind it. -/
theorem decode_append (h : decode bs = .ok c) (ht : t ≠ []) :
    decode (bs ++ t) = .error (wireError (.trailing t.length)) := by
  obtain ⟨outer, p, rfl, hread⟩ := exists_readOuter h
  obtain ⟨hmore, -⟩ := readsAll_readOuter hread
  rw [List.append_assoc]
  exact decode_of_readOuter_eq_error (hmore t ht)

/-- Octets that lack the magic text are no container. -/
theorem decode_of_not_isPrefix (h : ¬ magic <+: bs) : decode bs = .error (fault .missingMagic) := by
  have hmagic : magic.isPrefixOf bs = false :=
    Bool.eq_false_iff.mpr (mt List.isPrefixOf_iff_prefix.mp h)
  unfold decode
  rw [hmagic]
  rfl

/-- A proper beginning of a container lacks the magic text or is truncated. -/
theorem decode_of_append (h : decode (bs ++ t) = .ok c) (ht : t ≠ []) :
    decode bs = .error (if magic <+: bs then wireError .truncated else fault .missingMagic) := by
  obtain ⟨outer, p, houter, hread⟩ := exists_readOuter h
  split
  · rename_i hmagic
    obtain ⟨head, rfl⟩ := hmagic
    rw [List.append_assoc, List.append_cancel_left_eq] at houter
    obtain ⟨-, hcut⟩ := readsAll_readOuter hread
    exact decode_of_readOuter_eq_error (hcut houter ht)
  · rename_i hmagic
    exact decode_of_not_isPrefix hmagic

end Container

/-- No octet string that is read as a public key blob or as a container is a proper beginning of
another one.  With more octets behind it, it is malformed by their number; a proper beginning of it
is truncated, or lacks the magic text of containers. -/
theorem prefixFree {bs t : Bytes} (ht : t ≠ []) :
    ((∀ k, decodeBlob bs = .ok k →
        decodeBlob (bs ++ t) = .error (.malformed (.wire (.trailing t.length)))) ∧
      ∀ k, decodeBlob (bs ++ t) = .ok k → decodeBlob bs = .error (.malformed (.wire .truncated))) ∧
    (∀ c, Container.decode bs = .ok c →
        Container.decode (bs ++ t) = .error (.malformed (.wire (.trailing t.length)))) ∧
      ∀ c, Container.decode (bs ++ t) = .ok c →
        Container.decode bs = .error (.malformed
          (if Container.magic <+: bs then .wire .truncated else .container .missingMagic)) := by
  refine ⟨⟨?_, ?_⟩, ?_, ?_⟩
  · intro k h
    exact decodeBlob_append h ht
  · intro k h
    exact decodeBlob_of_append h ht
  · intro c h
    exact Container.decode_append h ht
  · intro c h
    rw [Container.decode_of_append h ht]
    split <;> rfl

/-- The blob and the container of the key with the modulus 15 are refused with an octet behind them
and without their last octet. -/
theorem prefixFree_fifteen :
    (∃ bs b, decodeBlob (bs ++ [b]) = .ok (Key.rsa .fifteen).toPublic ∧
      decodeBlob (bs ++ [b] ++ [0]) = .error (.malformed (.wire (.trailing 1))) ∧
      decodeBlob bs = .error (.malformed (.wire .truncated))) ∧
    ∃ bs b, Container.decode (bs ++ [b]) = .ok ⟨.rsa .fifteen, "сервер", 7⟩ ∧
      Container.decode (bs ++ [b] ++ [0]) = .error (.malformed (.wire (.trailing 1))) ∧
      ∃ fault, Container.decode bs = .error (.malformed fault) := by
  constructor
  · obtain ⟨blob, hblob⟩ : ∃ blob, decodeBlob blob = .ok (Key.rsa .fifteen).toPublic :=
      ⟨_, (decodeBlob_publicBlob_iff _).mpr Key.isReadable_fifteen⟩
    obtain rfl | ⟨bs, b, rfl⟩ := blob.eq_nil_or_concat'
    · cases hblob
    · exact ⟨bs, b, hblob, (prefixFree (List.cons_ne_nil 0 [])).1.1 _ hblob,
        (prefixFree (List.cons_ne_nil b [])).1.2 _ hblob⟩
  · obtain ⟨out, -, hout⟩ := Container.decode_encode_fifteen
    obtain rfl | ⟨bs, b, rfl⟩ := out.eq_nil_or_concat'
    · cases hout
    · exact ⟨bs, b, hout, (prefixFree (List.cons_ne_nil 0 [])).2.1 _ hout, _,
        (prefixFree (List.cons_ne_nil b [])).2.2 _ hout⟩

end KeySmith.Ssh
