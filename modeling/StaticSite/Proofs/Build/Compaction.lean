import StaticSite.Proofs.Build.Transfer
import StaticSite.Proofs.Json.Height

/-!
# Copies that lose nothing

When a directory is copied with its JSON documents made compact, a document and its copy read as the
same, with their keys in the same order, and every other file is copied byte for byte
(`Assets.Kept`). A compact document stays as it is when it is copied again. A file that cannot be
copied leaves the place of its copy as it was (`Transfer.at_eq_of_fails`), whatever happens to the
others. `copyTree_keeps` says so of a whole directory. What is asked of floats is that those of the
documents in it read back from their texts (`Transfer.RereadsFloats`).
-/

namespace StaticSite

/-- Without carriage returns there are no line ends to unify. -/
theorem Text.unifyLineEnds_eq_self {s : List Char} (h : '\r' ∉ s) : unifyLineEnds s = s := by
  induction s with
  | nil => rfl
  | cons c s ih =>
    have hc := List.ne_of_not_mem_cons h
    rw [unifyLineEnds, ih (List.not_mem_of_not_mem_cons h)]
    · exact fun _ heq _ => hc heq.symm
    · exact fun heq => hc heq.symm

/-- A text without control characters is read as it was written. -/
theorem Session.textOf_encode {text : String} (h : Json.IsTidy text.toList) :
    textOf (Text.encode text) = .ok text := by
  have hreturn : '\r' ∉ text.toList := fun hmem => absurd (h.printable _ hmem) (by decide)
  unfold textOf
  rw [Text.decode_encode]
  simp only [Text.unifyLineEnds_eq_self hreturn, String.ofList_toList]

namespace Assets

variable {σ : Type} {s s' : Session σ} {p q : Path} {text out : String} {limit : Nat}

/-- A document that is made compact reads as the same before and after, and stays as it is from then
on. -/
theorem compactJson_spec (h : compactJson limit text = .ok out)
    (hfloats : ∀ document, Json.parse text = .ok document → ∀ x ∈ document.floats, Json.Rereads x) :
    ∃ document, Json.parse text = .ok document ∧ Json.parse out = .ok document ∧
      Json.IsTidy out.toList ∧
      compactJson limit out = .ok out := by
  rcases compactJson_cases
    limit text with ⟨-, heq⟩ | ⟨hflat, ⟨cause, heq⟩ | ⟨document, hparsed, heq⟩⟩ <;> rw [heq] at h
  · cases h
  · cases h
  · cases hwritten : Symbol.text (Json.compact document) with
    | error fault =>
      rw [hwritten] at h
      cases h
    | ok compact =>
      rw [hwritten] at h
      obtain rfl := Except.ok.inj h
      have hproper := Json.isProper_of_parse hparsed
      obtain ⟨hreads, htidy⟩ := Json.parse_compact hproper (hfloats _ hparsed) hwritten
      have hflat' : ¬limit < Json.nesting compact := by
        have hle := Json.nesting_le_of_compact hproper (hfloats _ hparsed) hwritten hparsed
        omega
      refine ⟨document, hparsed, hreads, htidy, ?_⟩
      unfold compactJson Json.load
      rw [if_neg hflat', hreads]
      exact congrArg (Except.mapError Fault.half) hwritten

/-- The bytes of a compact document are those of a document that reads as the same, and copied once
more they stay. -/
theorem copied_spec {read bytes : ByteArray} (hname : isDocument p = true)
    (h : copied limit true p read = .ok bytes)
    (hfloats : ∀ text, Session.textOf read = .ok text → ∀ document, Json.parse text = .ok document →
      ∀ x ∈ document.floats, Json.Rereads x) :
    ∃ text document out, Session.textOf read = .ok text ∧ Json.parse text = .ok document ∧
      Session.textOf bytes = .ok out ∧ Json.parse out = .ok document ∧ Json.IsTidy out.toList ∧
      ∀ q, copied limit true q bytes = .ok bytes := by
  have hcopied : ∀ {q read}, isDocument q = true →
      copied limit true q read = (Session.textOf read >>= compactJson limit).map Text.encode :=
        fun hq => if_pos hq
  rw [hcopied hname] at h
  cases hread : Session.textOf read with
  | error fault =>
    rw [hread] at h
    cases h
  | ok text =>
    rw [hread, Config.ok_bind] at h
    cases hcompact : compactJson limit text with
    | error fault =>
      rw [hcompact] at h
      cases h
    | ok out =>
      rw [hcompact] at h
      obtain rfl := Except.ok.inj h
      obtain ⟨document, hparsed, hreparsed, htidy, hstays⟩ :=
        compactJson_spec hcompact (hfloats text hread)
      have hwritten := Session.textOf_encode htidy
      refine ⟨text, document, out, rfl, hparsed, hwritten, hreparsed, htidy, fun q => ?_⟩
      by_cases hq : isDocument q = true
      · rw [hcopied hq, hwritten, Config.ok_bind, hstays]
        rfl
      · exact if_neg hq

/-- Whether a copy takes the place of what stands there or is put there makes a difference to a
fault alone. -/
theorem putCopy_again (optimized : Bool) (source target : Path) (bytes : ByteArray)
    (s : Session σ) :
    (Action.makeDirectories target.parent >>= fun _ => putCopy optimized source target bytes) s =
        (Action.makeDirectories target.parent >>= fun _ => putCopy false source target bytes) s ∨
      ∃ fault s',
        (Action.makeDirectories target.parent >>= fun _ => putCopy optimized source
          target bytes) s =
          (.error (Fault.ofReplacing fault), s') ∧
        (Action.makeDirectories target.parent >>= fun _ => putCopy false source target bytes) s =
          (.error fault, s') := by
  rcases hmake : (Action.makeDirectories target.parent : Action σ Unit) s with ⟨fault | u, s₁⟩
  · rw [bind_apply_error hmake, bind_apply_error hmake]
    exact .inl rfl
  · rw [bind_apply_ok hmake, bind_apply_ok hmake, show putCopy false source target bytes =
      Action.putAt target bytes from rfl]
    unfold putCopy
    split
    · rw [Action.replaceAt_apply]
      rcases Action.putAt target bytes s₁ with ⟨fault | u', s₂⟩
      · exact .inr ⟨fault, s₂, rfl, rfl⟩
      · exact .inl rfl
    · exact .inl rfl

/-- What a file at `p` held in one session its copy at `q` holds in a later one. -/
inductive Kept (s s' : Session σ) (p q : Path) : Prop where
  /-- They are JSON documents that read as the same. The copy is written without a blank outside its
  strings, and to copy it once more is to copy it byte for byte, but for the wording of the fault if
  its copy cannot be put where it belongs. -/
  | document {text out : String} {document : Json} (named : isDocument p = true)
      (read : s.readText p = .ok text)
      (parsed : Json.parse text = .ok document) (written : s'.readText q = .ok out)
      (reparsed : Json.parse out = .ok document)
        (tight : ∀ c ∈ Json.outside out.toList, Text.isBlank c = false)
      (again : ∀ r : Path, r.IsGrounded → r.names ≠ q.names →
        (copyFile .onTree true q r : Action σ Unit) s' = copyFile .onTree false q r s' ∨
          ∃ fault s'', (copyFile .onTree true q r : Action σ Unit) s' =
            (.error (Fault.ofReplacing fault), s'') ∧
            (copyFile .onTree false q r : Action σ Unit) s' = (.error fault, s'')) : Kept s s' p q
  /-- They are no JSON documents and hold the same bytes. -/
  | bytes {bytes : ByteArray} (named : isDocument p = false) (read : s.readBytes p = .ok bytes)
      (written : s'.readBytes q = .ok bytes) : Kept s s' p q

namespace Transfer

variable {c : Transfer} {rel rel' : List String} {t t' : Tree} {l : Location}

/-- The floats of the JSON documents in the directory read back from their texts. -/
def RereadsFloats (c : Transfer) : Prop :=
  ∀ rel bytes stamp, c.start.at? (c.source.names ++ rel) = some (.file bytes stamp) →
    ∀ text, Session.textOf bytes = .ok text → ∀ document, Json.parse text = .ok document →
      ∀ x ∈ document.floats, Json.Rereads x

/-- What stands at the copy of a file that cannot be copied, or below, is as it was. -/
theorem Turns.at_eq_of_fails (hc : c.IsProper) (h : c.Turns t t') (hfails : c.Fails rel)
    (hl : c.target.names ++ rel <+: l) :
    t'.at? l = t.at? l := by
  have hchange := h l
  generalize t.at? l = e, t'.at? l = e' at hchange
  cases hchange with
  | same => rfl
  | made hdirectory hl' =>
    -- Nothing stands below the file, so that the directory would have to be the file.
    obtain rfl :=
      hfails.file.eq_of_above hc hdirectory.ne_none
        ((List.prefix_append_right_inj _).1 (hl.trans hl'))
    exact absurd hfails.file (Tree.not_hasFile_of_directory hdirectory)
  | put stamp hcopies hl' _ =>
    rw [hl'] at hl
    obtain rfl :=
      hfails.file.eq_of_above hc hcopies.hasFile.ne_none ((List.prefix_append_right_inj _).1 hl)
    exact absurd hcopies (hfails.none _)

/-- The copy of a file keeps what the file holds. -/
theorem Copies.kept {bytes : ByteArray} (hc : c.IsProper) (hoptimized : c.optimized = true)
    (hfloats : c.RereadsFloats) (hroom : s'.place.room.brackets = c.brackets)
    (hstart : s.tree = c.start) (hproper : s'.tree.IsProper) (hcopies : c.Copies rel bytes)
    (hfits : (c.source.descend rel).Fits) {stamp : Stamp}
    (hstands : s'.tree.at? (c.target.names ++ rel) = some (.file bytes stamp)) :
    Kept s s' (c.source.descend rel) (c.target.descend rel) := by
  have hnames := notMem_of_stands hc hcopies.hasFile.ne_none
  have hsource := hc.source.descend hnames
  have htarget := hc.target.descend hnames
  obtain ⟨read, stamp', hentry, hcopied⟩ := hcopies.content
  have hentry' : s.tree.at? (c.source.descend rel).names = some (.file read stamp') := by
    rw [hstart]; exact hentry
  have hsound : s.tree.IsSound := by rw [hstart]; exact hc.start.sound
  rw [hoptimized] at hcopied
  by_cases hname : isDocument (c.source.descend rel) = true
  · obtain ⟨text, document, out, htext, hparsed, hout, hreparsed, htidy, hagain⟩ :=
      copied_spec hname hcopied (hfloats rel read stamp' hentry)
    refine .document hname ?_ hparsed ?_ hreparsed htidy.tight fun r hr hne => ?_
    · rw [Session.readText_eq hsource hfits (hsound _), hentry', ← htext]
    · rw [Session.readText_eq htarget hcopies.fits (hproper.sound _),
        show s'.tree.at? (c.target.descend rel).names = _ from hstands, ← hout]
    · have happly := copyFile_apply htarget hcopies.fits hr hproper hstands hne.symm
      rw [happly, happly, hroom, hagain]
      exact putCopy_again _ _ _ _ s'
  · obtain rfl := Except.ok.inj ((if_neg hname).symm.trans hcopied)
    exact .bytes (Bool.eq_false_iff.2 hname)
      (Session.readBytes_of_file hsource hfits hsound hentry')
      (Session.readBytes_of_file htarget hcopies.fits hproper.sound hstands)

end Transfer

/-- A directory apart from the place of its copy is copied with its documents made compact. That
gets to an end where copying gets past all in it, and then each file is told to be written or is
reported. What is told to be written keeps what it is a copy of, and what is reported leaves the
place of its copy as it was, even if the copying did not get to an end. -/
theorem copyTree_keeps {c : Transfer} (hc : c.IsProper) (hwhole : c.IsWhole)
    (hdirectory : c.HasDirectory []) (hoptimized : c.optimized = true) (hfloats : c.RereadsFloats)
    (hstart : s.tree = c.start) (hroom : s.place.room.brackets = c.brackets) :
    ∃ result s', copyTree .onTree true (pathLimit + 1) c.source c.target s = (result, s') ∧
      (c.IsPassable → ∃ x, result = .ok x) ∧
      (∀ rel, c.Fails rel → ∀ l, c.target.names ++ rel <+: l → s'.tree.at? l = s.tree.at? l) ∧
      ∀ x, result = .ok x →
        (∀ p ∈ x.written, ∃ rel, c.HasFile rel ∧ p = c.target.descend rel ∧
          Kept s s' (c.source.descend rel) p) ∧
        (∀ e ∈ x.errors, ∃ rel message, c.Fails rel ∧
          e = (c.source.descend rel).toString ++ ": " ++ message) ∧
        ∀ rel, c.HasFile rel → c.target.descend rel ∈ x.written ∨
          c.Fails rel ∧ ∃ message, (c.source.descend rel).toString ++ ": " ++ message ∈
            x.errors := by
  have hmeets : c.Meets s.tree := by
    rw [hstart]
    exact ⟨hc.start, .refl _⟩
  -- The copy yields an account of all in the directory, if copying gets past it.
  have hyields := Transfer.yields_copyTree (σ := σ) hc hwhole hdirectory (pathLimit + 1) rfl
  rw [Path.descend_nil, Path.descend_nil, hoptimized] at hyields
  have hrun := hyields s hmeets hroom
  have hprecedes :=
    copyTree_within FileStore.precedes_onTree Session.precedes_log true (pathLimit + 1)
      c.source c.target s
  rcases hcopied : copyTree .onTree true (pathLimit + 1) c.source c.target s with ⟨result, s'⟩
  rw [hcopied] at hrun hprecedes
  have hroom' : s'.place.room.brackets = c.brackets := by rw [hprecedes.place, hroom]
  obtain ⟨hproper, hturns, hends⟩ := hrun
  refine ⟨result, s', rfl, fun hpassable => ?_,
    fun rel hfails l hl => hturns.at_eq_of_fails hc hfails hl, fun x hx => ?_⟩
  · cases hends with
    | ok => exact ⟨_, rfl⟩
    | error stops => exact absurd hpassable.passes stops
  · obtain rfl := hx
    cases hends with
    | ok passes accounts =>
      refine ⟨fun p hp => ?_, fun e he => ?_, fun rel hfile => ?_⟩
      · obtain ⟨rel, -, bytes, hcopies, rfl⟩ := accounts.written p hp
        obtain ⟨-, stamp, hstands⟩ := accounts.copied rel List.nil_prefix bytes hcopies
        have hfits := (passes rel List.nil_prefix hcopies.hasFile.ne_none).fits
        exact ⟨rel, hcopies.hasFile, rfl, hcopies.kept hc hoptimized hfloats hroom' hstart hproper
          hfits hstands⟩
      · obtain ⟨rel, -, hfails, message, rfl⟩ := accounts.errors e he
        exact ⟨rel, message, hfails, rfl⟩
      · by_cases hfails : ∀ bytes, ¬c.Copies rel bytes
        · obtain ⟨message, hmem⟩ := accounts.reported rel List.nil_prefix ⟨hfile, hfails⟩
          exact .inr ⟨⟨hfile, hfails⟩, message, hmem⟩
        · obtain ⟨bytes, hcopies⟩ := not_forall_not.1 hfails
          exact .inl (accounts.copied rel List.nil_prefix bytes hcopies).1

/-- Whether the floats of the document that some bytes hold read back from their texts. -/
def rereads (bytes : ByteArray) : Bool :=
  (Session.textOf bytes).toOption.all fun text => (Json.parse text).toOption.all fun document =>
    document.floats.all fun x => decide (Json.Rereads x)

/-- Floats read back from their texts if they do in every file of the list of entries. -/
theorem Transfer.rereadsFloats_of_entries {c : Transfer}
    (h : (c.start.entries.all fun
      | (_, .file bytes _) => rereads bytes
      | (_, .directory) => true) = true) : c.RereadsFloats := by
  intro rel bytes stamp hentry text htext document hparsed x hx
  have hroot : c.source.names ++ rel ≠ [] := by
    intro hnil
    rw [hnil, Tree.at_root] at hentry
    cases hentry
  have hall : rereads bytes = true := List.all_eq_true.1 h _ (Tree.mem_entries_of_at hentry hroot)
  unfold rereads at hall
  rw [htext] at hall
  simp only [Except.toOption, Option.all_some, hparsed, List.all_eq_true, decide_eq_true_eq] at hall
  exact hall x hx

namespace Sample

/-- A document with blanks, with an escape in a key and in a string, and with a key that is there
twice. -/
def document : ByteArray :=
  Text.encode "\x7b \"b\": [1.50, NaN],\r\n \"a\\n\": \"\\u00e9\", \"b\": -1e400\x7d"

/-- A document that holds half of a surrogate pair. -/
def broken : ByteArray := Text.encode "[\"\\ud800\"]"

/-- A directory with both documents, and with a text in a directory of its own. -/
def notes : Transfer where
  optimized := true
  brackets := Room.usual.brackets
  source := ⟨.absolute, ["site", "assets"]⟩
  target := ⟨.absolute, ["site", "dist"]⟩
  start :=
    let text (t : String) : Tree.Entry := .file (Text.encode t) (.given 1000)
    ⟨[(["site"], .directory), (["site", "assets"], .directory),
      (["site", "assets", "a.json"], .file document (.given 1000)),
      (["site", "assets", "c"], .directory), (["site", "assets", "c", "d.txt"], text "d\r\n"),
      (["site", "assets", "h.json"], .file broken (.given 1000)), (["site", "dist"], .directory),
      (["site", "dist", "h.json"], text "[ ]")]⟩

/-- The session in which it is copied. -/
def session : Session Unit :=
  .start notes.start ⟨⟨.absolute, ["site"]⟩, "/home", .usual⟩ ⟨2024, 5, 6⟩ ()

/-- The directory of the sample is copied from a proper tree to a place apart from it. -/
theorem isProper_notes : notes.IsProper where
  source := by decide
  target := by decide
  outside := by decide
  apart := by decide
  start :=
    { sound := Tree.isSound_of_entries (by decide +kernel)
      once := by decide +kernel
      named := Tree.isNamed_of_entries (by decide +kernel) }

end Sample

open Sample in
/-- In the sample the first document is copied and kept, and the place of the second one, which
cannot be written, is as it was. -/
theorem copyTree_keeps_sample : ∃ x s',
    copyTree .onTree true (pathLimit + 1) notes.source notes.target session = (.ok x, s') ∧
      Kept session s' (notes.source.descend ["a.json"]) (notes.target.descend ["a.json"]) ∧
      s'.tree.at? ["site", "dist", "h.json"] = session.tree.at? ["site", "dist", "h.json"] := by
  have hpassable : notes.IsPassable := by decide +kernel
  obtain ⟨result, s', hcopied, hends, hleft, hall⟩ :=
    copyTree_keeps (s := session) isProper_notes hpassable.isWhole
      hpassable.directory rfl (Transfer.rereadsFloats_of_entries (by decide +kernel)) rfl rfl
  obtain ⟨x, rfl⟩ := hends hpassable
  obtain ⟨hwritten, -, heach⟩ := hall x rfl
  refine ⟨x, s', hcopied, ?_, hleft ["h.json"] ⟨⟨_, _, rfl⟩, fun bytes hcopies => ?_⟩ _
    (List.prefix_refl _)⟩
  · obtain ⟨bytes, hbytes⟩ : Config.Makes
        (copied notes.brackets true (notes.source.descend ["a.json"]) document) :=
      Config.makes_iff_isOk.2 (by decide +kernel)
    have hcopies : notes.Copies ["a.json"] bytes :=
      ⟨⟨document, .given 1000, rfl, hbytes⟩, by decide +kernel, by decide +kernel⟩
    rcases heach ["a.json"] hcopies.hasFile with hmem | ⟨hfails, -⟩
    · obtain ⟨rel, -, hrel, hkept⟩ := hwritten _ hmem
      obtain rfl : ["a.json"] = rel := List.append_cancel_left (congrArg Path.names hrel)
      exact hkept
    · exact absurd hcopies (hfails.none bytes)
  · have hnone : (copied notes.brackets true (notes.source.descend ["h.json"]) broken).isOk =
      false := by decide +kernel
    obtain ⟨read, stamp, hentry, hbytes⟩ := hcopies.content
    cases hentry
    cases hnone.symm.trans (Config.makes_iff_isOk.1 ⟨bytes, hbytes⟩)

end Assets

end StaticSite
