import GuacServer.JsonStream
import GuacServer.PathNormalization

/-!
# Directory listings

guac_rdp_ls_ack_handler and guac_common_ssh_sftp_ls_ack_handler stream the entries of a
directory as the properties of a JSON object. Each ack goes on with the directory until a
blob was written. By then the next entry has been taken from the directory already, and
it is lost.
-/

namespace GuacServer.DirectoryListing

open DecimalNumerals JsonGrammar JsonStream List PathNormalization StringBuffers Unicode

/-- An entry that is read from a directory. -/
structure DirectoryEntry where
  /-- The filename. -/
  name : List UInt8
  /-- Whether it is a directory, unless it cannot be opened. -/
  directory : Option Bool
  deriving DecidableEq

/-- The entry stands for the directory itself or for its parent. -/
def DirectoryEntry.isDots (entry : DirectoryEntry) : Bool :=
  entry.name=[0x2E] || entry.name=[0x2E,0x2E]

/-- guac_rdp_fs_append_filename, for a buffer of 4096 bytes. -/
def guacRdpFsAppendFilename (path filename : List UInt8) : Option (List UInt8) :=
  if filename=[0x2E] ∨ filename=[0x2E,0x2E] then none
  else
    let slash := if path≠[] ∧ (path.getLast?.any fun c => !isSeparator c) then [0x2F] else []
    if filename.any isSeparator then none
    else if (path++slash++filename).length≥4096 then none
    else some (path++slash++filename)

/-- guac_ssh_append_filename, for a path that fits in a buffer of 2048 bytes. -/
def guacSshAppendFilename (path filename : List UInt8) : Option (List UInt8) :=
  if filename=[0x2E] ∨ filename=[0x2E,0x2E] then none
  else if filename.contains 0x2F then none
  else
    let copied := guacStrlcpy 0 path 2048 ⟨[],0⟩
    let slashed :=
      if copied.2 > 0 ∧ copied.1.contents[copied.2-1]? ≠ some 0x2F then
        guacStrlcpy copied.2 [0x2F] (2048-copied.2) copied.1
      else (copied.1,0)
    let length := copied.2+slashed.2
    let appended := guacStrlcpy length filename (2048-length) slashed.1
    if length+appended.2≥2048 then none else some appended.1.contents

/-- GUAC_USER_STREAM_INDEX_MIMETYPE, or the type of other files. -/
def mimetype (directory : Bool) : List UInt8 :=
  if directory then "application/vnd.glyptodon.guacamole.stream-index+json".toUTF8.toList
  else "application/octet-stream".toUTF8.toList

/-- What is listed: the directory_name of an RDP drive or of an SFTP file system. -/
inductive Listing where
  | rdp (directoryName : List UInt8)
  | sftp (directoryName : List UInt8)

/-- The property that is written for an entry, unless it is skipped. -/
def Listing.property (listing : Listing) (entry : DirectoryEntry) : Option Member :=
  if entry.isDots then none
  else
    match listing with
    | .rdp directoryName =>
      match guacRdpFsAppendFilename directoryName entry.name, entry.directory with
      | some absolutePath, some directory => some (absolutePath,mimetype directory)
      | _, _ => none
    | .sftp directoryName =>
      -- The attributes come with the entry, so nothing has to be opened.
      match guacSshAppendFilename directoryName entry.name with
      | some absolutePath => some (absolutePath,mimetype (entry.directory.getD false))
      | none => none

/-- Whether the stream is still used. -/
inductive Phase where
  | listing | finished | aborted
  deriving DecidableEq

/-- guac_rdp_ls_status and guac_common_ssh_sftp_ls_state, and what was written. -/
structure ListState where
  /-- The entries that are yet to be read. -/
  entries : List DirectoryEntry
  /-- The state of the JSON object. -/
  json : JsonState
  /-- The properties that were written, in order. -/
  members : List Member
  /-- Whether the stream is still used. -/
  phase : Phase

/-- The loop of an ack handler. -/
def listLoop (listing : Listing) : List DirectoryEntry→Bool→JsonState→List Member→ListState
  | [], _, json, members => ⟨[],json,members,.finished⟩
  -- The entry is read before it is checked whether a blob was written.
  | _ :: entries, true, json, members => ⟨entries,json,members,.listing⟩
  | entry::entries, false, json, members =>
    match listing.property entry with
    | none => listLoop listing entries false json members
    | some p =>
      let written := guacCommonJsonWriteProperty p.1 p.2 json
      listLoop listing entries written.2 written.1 (members++[p])

/-- guac_rdp_ls_ack_handler and guac_common_ssh_sftp_ls_ack_handler. -/
def lsAckHandler (listing : Listing) (success : Bool) (state : ListState) : ListState :=
  if state.phase≠.listing then state
  else if success then
    let next := listLoop listing state.entries false state.json state.members
    if next.phase=.finished then
      { next with json := guacCommonJsonFlush (guacCommonJsonEndObject next.json).1 }
    else next
  else { state with phase := .aborted }

theorem brace_fits : [(0x7B : UInt8)].length≤jsonBufferSize := by decide

theorem noBlobs_fit : ∀ blob∈([] : List (List UInt8)), blob.length≤jsonBufferSize :=
  forall_mem_nil _

/-- What guac_common_json_begin_object leaves. -/
def begunObject : JsonState := ⟨[0x7B],0,[],brace_fits,noBlobs_fit⟩

/-- The state after a number of acks, each of them a success. -/
def acked (listing : Listing) (entries : List DirectoryEntry) : ℕ→ListState
  | 0 => ⟨entries,begunObject,[],.listing⟩
  | n+1 => lsAckHandler listing true (acked listing entries n)

/-! ## When a blob is written -/

/-- A function writes a blob exactly if the buffer has no room for the bytes that it
writes, and otherwise they are in the buffer. -/
def Overfills (step : JsonStep) (bytes : List UInt8) : Prop :=
  ∀ state, ((step state).2=true ↔ jsonBufferSize<state.buffer.length+bytes.length) ∧
    ((step state).2=false → (step state).1.buffer.length=state.buffer.length+bytes.length)

theorem overfills_none : Overfills (fun state => (state,false)) [] := by
  intro state
  have hfits := state.fits
  simp only [Bool.false_eq_true,length_nil,Nat.add_zero,false_iff,Nat.not_lt]
  exact ⟨hfits,fun _ => trivial⟩

theorem Overfills.andThen {first second : JsonStep} {bytes bytes' : List UInt8}
    (h : Overfills first bytes) (h' : Overfills second bytes') :
    Overfills (first.andThen second) (bytes++bytes') := by
  intro state
  obtain ⟨hfirst,hbuffer⟩ := h state
  obtain ⟨hsecond,hbuffer'⟩ := h' (first state).1
  simp only [JsonStep.andThen,Bool.or_eq_true,Bool.or_eq_false_iff,length_append]
  cases hwritten : (first state).2 with
  | true =>
    have hover := hfirst.mp hwritten
    exact ⟨iff_of_true (Or.inl rfl) (by omega),fun h => absurd h.1 (by simp)⟩
  | false =>
    have hlength := hbuffer hwritten
    rw [hlength] at hsecond hbuffer'
    simp only [Bool.false_eq_true,false_or,true_and]
    exact ⟨by rw [hsecond,Nat.add_assoc],fun h => by rw [hbuffer' h,Nat.add_assoc]⟩

theorem overfills_guacCommonJsonWrite (buffer : List UInt8) {length : ℤ}
    (h : length≤buffer.length) :
    Overfills (guacCommonJsonWrite buffer length) (buffer.take length.toNat) := by
  intro state
  induction buffer, length, state using guacCommonJsonWrite.induct with
  | case1 buffer length state hlength blobLength hblob hroom flushed ih =>
    rw [guacCommonJsonWrite,dif_pos hlength,dif_pos hroom,length_take]
    exact ⟨iff_of_true rfl (by omega),fun h => absurd h (by simp)⟩
  | case2 buffer length state hlength blobLength hblob hroom ih =>
    rw [guacCommonJsonWrite,dif_pos hlength,dif_neg hroom]
    have hrest := ih (by rw [length_drop]; omega)
    have hsum : state.buffer.length+min blobLength buffer.length+
        min (length-blobLength).toNat (buffer.length-blobLength)=
        state.buffer.length+min length.toNat buffer.length := by
      omega
    simp only [JsonState.append,length_append,length_take,length_drop,
      hsum] at hrest ⊢
    exact hrest
  | case3 buffer length state hlength =>
    rw [guacCommonJsonWrite,dif_neg hlength,Int.toNat_of_nonpos (not_lt.mp hlength)]
    exact overfills_none state

theorem overfills_byte (b : UInt8) : Overfills (guacCommonJsonWrite [b] 1) [b] :=
  overfills_guacCommonJsonWrite [b] (by simp)

theorem overfills_writeRun (run : List UInt8) : Overfills (writeRun run) (writtenRun run) := by
  have hwrap : wrap32 run.length≤run.length := by
    by_cases hlong : run.length<2^31
    · exact (wrap32_of_range (by omega) (by omega)).le
    · have hlt := wrap32_lt run.length
      omega
  unfold writeRun
  split_ifs with h
  · exact overfills_guacCommonJsonWrite run hwrap
  · rw [not_not.mp h]
    exact overfills_none

theorem overfills_writeStringFrom (run str : List UInt8) :
    Overfills (writeStringFrom run str) (writtenFrom run str) := by
  induction str generalizing run with
  | nil => exact overfills_writeRun run
  | cons current str ih =>
    rw [writeStringFrom,writtenFrom]
    split_ifs
    · exact overfills_writeRun run
    · exact (overfills_writeRun run).andThen ((overfills_byte 0x5C).andThen (ih _))
    · exact ih _

theorem overfills_guacCommonJsonWriteString (str : List UInt8) :
    Overfills (guacCommonJsonWriteString str) (0x22::writtenFrom [] str++[0x22]) :=
  (overfills_byte 0x22).andThen ((overfills_writeStringFrom [] str).andThen (overfills_byte 0x22))

/-- The buffer has no room for a property. -/
def NoRoom (json : JsonState) (p : Member) : Prop :=
  jsonBufferSize<json.buffer.length+
    ((if json.propertiesWritten≠0 then 1 else 0)+(writtenProperty p).length)

instance (json : JsonState) (p : Member) : Decidable (NoRoom json p) :=
  inferInstanceAs (Decidable (_ < _))

/-- A blob is written for a property exactly if the buffer has no room for it. -/
theorem writeProperty_iff (p : Member) (json : JsonState) :
    (guacCommonJsonWriteProperty p.1 p.2 json).2=true ↔ NoRoom json p := by
  have hcount : Overfills (fun state => ({ state with
      propertiesWritten := wrap32 (state.propertiesWritten+1) },false)) [] :=
    fun state => overfills_none state
  have hproperty := (overfills_guacCommonJsonWriteString p.1).andThen ((overfills_byte 0x3A).andThen
    ((overfills_guacCommonJsonWriteString p.2).andThen hcount))
  have hbytes : (0x22::writtenFrom [] p.1++[0x22]++([0x3A]++
      (0x22::writtenFrom [] p.2++[0x22]++[])))=writtenProperty p := by
    simp [writtenProperty]
  rw [hbytes] at hproperty
  by_cases hfirst : json.propertiesWritten=0
  · have hwritten := (overfills_none.andThen hproperty json).1
    simpa [guacCommonJsonWriteProperty,JsonStep.andThen,NoRoom,hfirst] using hwritten
  · have hwritten := ((overfills_byte 0x2C).andThen hproperty json).1
    simpa [guacCommonJsonWriteProperty,JsonStep.andThen,NoRoom,hfirst,Nat.add_comm] using hwritten

/-! ## What is listed -/

/-- The properties of entries, in order. -/
def Listing.properties (listing : Listing) (entries : List DirectoryEntry) : List Member :=
  entries.filterMap listing.property

/-- In the next ack a property overfills the buffer while there is a property to be written
for the entry after it. -/
def DropsEntry (listing : Listing) : List DirectoryEntry→JsonState→Prop
  | [], _ => False
  | entry::entries, json =>
    match listing.property entry with
    | none => DropsEntry listing entries json
    | some p =>
      if NoRoom json p then ∃ next∈entries.head?, (listing.property next).isSome
      else DropsEntry listing entries (guacCommonJsonWriteProperty p.1 p.2 json).1

/-- What is written and what is left are the properties of the entries, unless one is
dropped. -/
theorem listLoop_properties (listing : Listing) (entries : List DirectoryEntry) (json : JsonState)
    (members : List Member) :
    let next := listLoop listing entries false json members
    (¬DropsEntry listing entries json →
      next.members++listing.properties next.entries=members++listing.properties entries) ∧
    (DropsEntry listing entries json → (next.members++listing.properties next.entries).length<
        (members++listing.properties entries).length) := by
  induction entries generalizing json members with
  | nil => simp [listLoop,DropsEntry]
  | cons entry entries ih =>
    cases hproperty : listing.property entry with
    | none => simpa [listLoop,DropsEntry,hproperty,Listing.properties] using ih json members
    | some p =>
      simp only [listLoop,DropsEntry,hproperty,Listing.properties,filterMap_cons]
      by_cases hroom : NoRoom json p
      · rw [(writeProperty_iff p json).mpr hroom]
        simp only [hroom,if_true]
        cases entries with
        | nil => simp [listLoop]
        | cons next entries =>
          cases hnext : listing.property next <;> simp [listLoop,hnext]
      · have hflag := (Bool.not_eq_true _).mp (mt (writeProperty_iff p json).mp hroom)
        have hrest := ih (guacCommonJsonWriteProperty p.1 p.2 json).1 (members++[p])
        rw [hflag]
        simpa [hroom,Listing.properties] using hrest

/-- The properties that were written are those of the text so far. -/
structure Written (json : JsonState) (members : List Member) : Prop where
  contents : json.contents=0x7B::writtenProperties 0 members
  count : json.propertiesWritten=wrap32 members.length

theorem writtenProperties_append (count : ℕ) (ps qs : List Member) :
    writtenProperties count (ps++qs)=
      writtenProperties count ps++writtenProperties (count+ps.length) qs := by
  induction ps generalizing count with
  | nil => rfl
  | cons p ps ih =>
    simp only [cons_append,writtenProperties,ih,length_cons,append_assoc,
      Nat.add_comm ps.length,Nat.add_assoc]

variable {members : List Member}

theorem written_writeProperty {json : JsonState} (h : Written json members) (p : Member) :
    Written (guacCommonJsonWriteProperty p.1 p.2 json).1 (members++[p]) := by
  obtain ⟨hcontents,hcount⟩ := guacCommonJsonWriteProperty_contents p h.count
  constructor
  · rw [hcontents,h.contents,writtenProperties_append]
    simp [writtenProperties]
  · rw [hcount,length_append,length_singleton]

theorem written_listLoop (listing : Listing) (entries : List DirectoryEntry) (blobWritten : Bool)
    {json : JsonState} (h : Written json members) :
    let next := listLoop listing entries blobWritten json members
    Written next.json next.members := by
  induction entries generalizing blobWritten json members with
  | nil => exact h
  | cons entry entries ih =>
    cases blobWritten with
    | true => exact h
    | false =>
      simp only [listLoop]
      cases listing.property entry with
      | none => exact ih false h
      | some p => exact ih _ (written_writeProperty h p)

/-! ## Complete listings -/

/-- A directory whose entries, but for those that stand for itself and its parent, all have
valid names and can be opened. -/
structure Directory (listing : Listing) where
  /-- The entries in the order in which they are read. -/
  entries : List DirectoryEntry
  /-- A property can be written for each of them. -/
  valid : ∀ entry∈entries, entry.isDots=false→(listing.property entry).isSome

/-- The object that was streamed has one property for each entry, in order. -/
structure Complete (listing : Listing) (entries : List DirectoryEntry) (s : ListState) : Prop where
  streamed : s.json.blobs.flatten=0x7B::writtenProperties 0 s.members++[0x7D]
  members : List.Forall₂ (fun entry p => listing.property entry=some p)
    (entries.filter fun entry => !entry.isDots) s.members

theorem property_dots (listing : Listing) {entry : DirectoryEntry} (h : entry.isDots=true) :
    listing.property entry=none := by
  simp [Listing.property,h]

/-- Each entry is listed with its property. -/
theorem forall₂_iff {listing : Listing} {entries : List DirectoryEntry}
    (h : ∀ entry∈entries, entry.isDots=false→(listing.property entry).isSome)
    (members : List Member) :
    List.Forall₂ (fun entry p => listing.property entry=some p)
      (entries.filter fun entry => !entry.isDots) members ↔
      members=listing.properties entries := by
  induction entries generalizing members with
  | nil => simp [Listing.properties]
  | cons entry entries ih =>
    have hrest := ih fun e he => h e (mem_cons_of_mem _ he)
    cases hdots : entry.isDots with
    | true => simpa [Listing.properties,hdots,property_dots listing hdots] using hrest members
    | false =>
      obtain ⟨p,hp⟩ := Option.isSome_iff_exists.mp (h entry (mem_cons_self ..) hdots)
      cases members with
      | nil => simp [Listing.properties,hdots,hp]
      | cons q members =>
        simp only [hdots,Bool.not_false,filter_cons_of_pos,List.forall₂_cons,hp,
          Listing.properties,filterMap_cons,List.cons.injEq,Option.some.injEq]
        rw [hrest members,eq_comm (a := p),Listing.properties]

/-- The loop ends with the directory, or goes on after fewer entries. -/
theorem listLoop_phase (listing : Listing) (entries : List DirectoryEntry) (blobWritten : Bool)
    (json : JsonState) (members : List Member) :
    let next := listLoop listing entries blobWritten json members
    (next.phase=.finished ∧ next.entries=[]) ∨
      (next.phase=.listing ∧ next.entries.length<entries.length) := by
  induction entries generalizing blobWritten json members with
  | nil => exact Or.inl ⟨rfl,rfl⟩
  | cons entry entries ih =>
    cases blobWritten with
    | true => exact Or.inr ⟨rfl,Nat.lt_succ_self _⟩
    | false =>
      simp only [listLoop]
      cases listing.property entry with
      | none => exact (ih false json members).imp_right fun h => ⟨h.1,Nat.lt_succ_of_lt h.2⟩
      | some p => exact (ih _ _ _).imp_right fun h => ⟨h.1,Nat.lt_succ_of_lt h.2⟩

/-- A listing goes on with what was written so far, or the whole object was streamed. -/
inductive Listed (s : ListState) : Prop
  | ongoing (phase : s.phase=.listing) (written : Written s.json s.members)
  | finished (phase : s.phase=.finished) (entries : s.entries=[])
      (streamed : s.json.blobs.flatten=0x7B::writtenProperties 0 s.members++[0x7D])

/-- The object is ended and flushed. -/
theorem streamed_end {json : JsonState} (h : Written json members) :
    (guacCommonJsonFlush (guacCommonJsonEndObject json).1).blobs.flatten=
      0x7B::writtenProperties 0 members++[0x7D] := by
  have hflushed := guacCommonJsonFlush_contents (guacCommonJsonEndObject json).1
  rw [JsonState.contents,guacCommonJsonFlush_buffer,append_nil] at hflushed
  rw [hflushed,guacCommonJsonEndObject,(writes_guacCommonJsonWrite [0x7D] 1 json).1,h.contents]
  rfl

/-- What an ack that is a success does while there are entries to be read. -/
theorem listed_ack (listing : Listing) {s : ListState} (h : Listed s) :
    Listed (lsAckHandler listing true s) ∧
    ((lsAckHandler listing true s).phase=.listing →
      (lsAckHandler listing true s).entries.length<s.entries.length) ∧
    (¬DropsEntry listing s.entries s.json → (lsAckHandler listing true s).members++
        listing.properties (lsAckHandler listing true s).entries=
      s.members++listing.properties s.entries) ∧
    (DropsEntry listing s.entries s.json → ((lsAckHandler listing true s).members++
        listing.properties (lsAckHandler listing true s).entries).length<
      (s.members++listing.properties s.entries).length) := by
  cases h with
  | finished hphase hentries hstreamed =>
    have hsame : lsAckHandler listing true s=s := by simp [lsAckHandler,hphase]
    rw [hsame,hentries]
    exact ⟨.finished hphase hentries hstreamed,by simp [hphase],fun _ => rfl,False.elim⟩
  | ongoing hphase hwritten =>
    have hnext := written_listLoop listing s.entries false hwritten
    have hproperties := listLoop_properties listing s.entries s.json s.members
    have hnextPhase := listLoop_phase listing s.entries false s.json s.members
    simp only [lsAckHandler,hphase,ne_eq,not_true_eq_false,if_false,if_true]
    generalize listLoop listing s.entries false s.json s.members=next
      at hnext hproperties hnextPhase ⊢
    rcases hnextPhase with ⟨hfinished,hentries⟩ | ⟨hlisting,hlength⟩
    · rw [if_pos hfinished]
      exact ⟨.finished hfinished hentries (streamed_end hnext),by simp [hfinished],hproperties⟩
    · rw [if_neg (by rw [hlisting]; decide)]
      exact ⟨.ongoing hlisting hnext,fun _ => hlength,hproperties⟩

theorem listed_acked (listing : Listing) (entries : List DirectoryEntry) (n : ℕ) :
    Listed (acked listing entries n) := by
  induction n with
  | zero => exact .ongoing rfl ⟨rfl,by simp [acked,begunObject,wrap32]⟩
  | succ n ih => exact (listed_ack listing ih).1

/-- One ack more than there are entries finishes the listing. -/
theorem acked_finished (listing : Listing) (entries : List DirectoryEntry) :
    (acked listing entries (entries.length+1)).phase=.finished := by
  have hleft : ∀ n, (acked listing entries n).phase=.listing →
      (acked listing entries n).entries.length+n≤entries.length := by
    intro n
    induction n with
    | zero => exact fun _ => le_rfl
    | succ n ih =>
      intro hphase
      have hack := (listed_ack listing (listed_acked listing entries n)).2.1 hphase
      cases listed_acked listing entries n with
      | finished hfinished =>
        have hsame : acked listing entries (n+1)=acked listing entries n := by
          simp [acked,lsAckHandler,hfinished]
        rw [hsame,hfinished] at hphase
        cases hphase
      | ongoing hlisting =>
        have hlong := ih hlisting
        have hless : (acked listing entries (n+1)).entries.length<
          (acked listing entries n).entries.length := hack
        omega
  cases listed_acked listing entries (entries.length+1) with
  | finished hphase => exact hphase
  | ongoing hphase =>
    have hlong := hleft _ hphase
    omega

/-- The properties are all written or still to be written exactly if no ack has dropped an
entry; otherwise there are fewer. -/
theorem properties_acked (listing : Listing) (entries : List DirectoryEntry) (n : ℕ) :
    let s := acked listing entries n
    ((∀ m<n, ¬DropsEntry listing (acked listing entries m).entries (acked listing entries m).json) →
      s.members++listing.properties s.entries=listing.properties entries) ∧
    ((∃ m<n, DropsEntry listing (acked listing entries m).entries (acked listing entries m).json) →
      (s.members++listing.properties s.entries).length<(listing.properties entries).length) := by
  induction n with
  | zero => exact ⟨fun _ => rfl,fun ⟨m,hm,_⟩ => absurd hm (Nat.not_lt_zero m)⟩
  | succ n ih =>
    obtain ⟨-,-,hkept,hdropped⟩ := listed_ack listing (listed_acked listing entries n)
    refine ⟨fun h => (hkept (h n (Nat.lt_succ_self n))).trans
      (ih.1 fun m hm => h m (Nat.lt_succ_of_lt hm)),fun ⟨m,hm,hdrop⟩ => ?_⟩
    by_cases hbefore : ∃ m<n, DropsEntry listing (acked listing entries m).entries
        (acked listing entries m).json
    · refine lt_of_le_of_lt ?_ (ih.2 hbefore)
      by_cases hnow : DropsEntry listing (acked listing entries n).entries
          (acked listing entries n).json
      · exact (hdropped hnow).le
      · exact (congrArg List.length (hkept hnow)).le
    · obtain rfl : m=n := by
        by_contra hne
        exact hbefore ⟨m,by omega,hdrop⟩
      rw [←ih.1 fun k hk hdrop' => hbefore ⟨k,hk,hdrop'⟩]
      exact hdropped hdrop

/-- A listing whose blobs are all acknowledged is finished, and it is complete exactly if no
ack came to a property that overfilled the buffer before another entry. -/
theorem listing_complete_iff (listing : Listing) (directory : Directory listing) :
    (∃ n, (acked listing directory.entries n).phase=.finished) ∧
    ∀ n, (acked listing directory.entries n).phase=.finished →
      (Complete listing directory.entries (acked listing directory.entries n) ↔
        ∀ m<n, ¬DropsEntry listing (acked listing directory.entries m).entries
          (acked listing directory.entries m).json) := by
  refine ⟨⟨_,acked_finished listing directory.entries⟩,fun n hphase => ?_⟩
  obtain ⟨hkept,hdropped⟩ := properties_acked listing directory.entries n
  cases listed_acked listing directory.entries n with
  | ongoing hlisting =>
    rw [hphase] at hlisting
    cases hlisting
  | finished _ hentries hstreamed =>
    simp only [hentries,Listing.properties,filterMap_nil,append_nil] at hkept hdropped
    have hmembers := forall₂_iff directory.valid (acked listing directory.entries n).members
    constructor
    · intro hcomplete m hm hdrop
      have hless := hdropped ⟨m,hm,hdrop⟩
      rw [hmembers.mp hcomplete.members,Listing.properties] at hless
      exact lt_irrefl _ hless
    · exact fun h => ⟨hstreamed,hmembers.mpr (hkept h)⟩

/-! ## An entry that is lost -/

theorem writtenFrom_plain {run str : List UInt8} (h : ∀ b∈str, b≠0 ∧ b≠0x22) :
    writtenFrom run str=writtenRun (run++str) := by
  induction str generalizing run with
  | nil => simp [writtenFrom]
  | cons b str ih =>
    obtain ⟨hb,hstr⟩ := forall_mem_cons.mp h
    simp [writtenFrom,hb,ih hstr]

/-- A backslash and a name of 109 bytes. -/
def deepName : List UInt8 := 0x5C::List.replicate 109 0x64

/-- The path of a directory in 36 others, which has 4070 bytes. -/
@[irreducible]
def deepPath : List UInt8 := (List.replicate 36 deepName).flatten++deepName

theorem length_deepPath : deepPath.length=4070 := by
  rw [deepPath,length_append,length_flatten,map_replicate,sum_replicate,deepName,
    length_cons,length_replicate]
  rfl

theorem property_deepPath (b : UInt8) (hb : b=0x61 ∨ b=0x62) :
    (Listing.rdp deepPath).property ⟨[b],some false⟩=some (deepPath++[0x2F,b],mimetype false) := by
  have hlast : deepPath.getLast? = some 0x64 := by
    rw [deepPath,deepName,List.getLast?_append_cons]
    decide
  have hne : deepPath≠[] := ne_nil_of_length_eq_add_one length_deepPath
  rcases hb with rfl | rfl <;>
    simp [Listing.property,DirectoryEntry.isDots,guacRdpFsAppendFilename,hlast,hne,
      isSeparator,length_deepPath]

/-- A property with a long path and a mimetype does not fit in a buffer. -/
theorem noRoom_begunObject {path : List UInt8} (hplain : ∀ b∈path, b≠0 ∧ b≠0x22)
    (hlong : 4072≤path.length) (hint : path.length<2^31) {value : List UInt8}
    (hvalue : (writtenFrom [] value).length=24) : NoRoom begunObject (path,value) := by
  have hpath : writtenFrom [] path=path := by
    rw [writtenFrom_plain hplain,nil_append,writtenRun_eq hint]
  simp only [NoRoom,writtenProperty,hpath,length_append,length_cons,
    length_nil,hvalue,begunObject,jsonBufferSize]
  omega

theorem noRoom_deepPath : NoRoom begunObject (deepPath++[0x2F,0x61],mimetype false) := by
  have hlength : (deepPath++[0x2F,0x61]).length=4072 := by
    rw [length_append,length_deepPath]
    rfl
  have hname : ∀ b∈deepName, b≠0 ∧ b≠0x22 :=
    forall_mem_cons.mpr ⟨by decide,fun b hb => by rw [eq_of_mem_replicate hb]; decide⟩
  refine noRoom_begunObject (fun b hb => ?_) (by omega) (by omega) (by decide +kernel)
  rw [deepPath,append_assoc,mem_append,mem_append,mem_flatten] at hb
  rcases hb with ⟨name,hmem,hb⟩ | hb | hb
  · rw [eq_of_mem_replicate hmem] at hb
    exact hname b hb
  · exact hname b hb
  · obtain rfl | rfl : b=0x2F ∨ b=0x61 := by simpa using hb
    all_goals exact ⟨by decide,by decide⟩

/-- The file a in a directory with such a path fills a blob, and the file b after it is
lost. -/
theorem not_listing_complete : ¬∀ (listing : Listing) (directory : Directory listing) (n : ℕ),
      (acked listing directory.entries n).phase=.finished →
        Complete listing directory.entries (acked listing directory.entries n) := by
  intro h
  have ha := property_deepPath 0x61 (Or.inl rfl)
  have hb := property_deepPath 0x62 (Or.inr rfl)
  let directory : Directory (.rdp deepPath) :=
    ⟨[⟨[0x61],some false⟩,⟨[0x62],some false⟩],by simp [ha,hb]⟩
  have hfinished := acked_finished (.rdp deepPath) directory.entries
  have hcomplete := h _ directory _ hfinished
  have hless := (properties_acked (.rdp deepPath) directory.entries 3).2 ⟨0,by decide,by
    simp [acked,directory,DropsEntry,ha,hb,noRoom_deepPath]⟩
  have hmembers := (forall₂_iff directory.valid _).mp hcomplete.members
  rw [length_append] at hless
  have hequal : (acked (.rdp deepPath) directory.entries 3).members.length=
      ((Listing.rdp deepPath).properties directory.entries).length :=
    congrArg List.length hmembers
  omega

end GuacServer.DirectoryListing
