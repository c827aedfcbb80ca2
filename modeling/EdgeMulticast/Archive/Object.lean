import EdgeMulticast.Archive.Upstream

/-!
# The bytes of an upstream object

`object connections messages` is what a writer's output holds once it has accepted the messages
(`Wrote.spec`).  The header at its front is read back from any stream of these bytes
(`readHeader_ahead`), and what is read as a header declares connections that can be told apart
(`of_readHeader`).
-/

namespace EdgeMulticast.Archive

open EdgeMulticast.Lib

/-! ## What is written -/

namespace UpstreamConnection

/-- A connection as the header declares it. -/
def declaration (c : UpstreamConnection) : List Byte :=
  le16 (UInt16.ofNat c.name.length) ++ c.recvTsKind.asByte :: c.name

end UpstreamConnection

namespace UpstreamRecord

/-- A message as it stands in an object. -/
def encode (m : UpstreamRecord) : List Byte :=
  le16 m.connection ++ le64 m.recvTsNs ++ le32 (UInt32.ofNat m.bytes.length) ++ m.bytes

theorem length_encode (m : UpstreamRecord) :
    m.encode.length = RECORD_HEADER_LEN + m.bytes.length := by
  simp only [encode, List.length_append, length_le16, length_le64, length_le32, RECORD_HEADER_LEN]

end UpstreamRecord

/-- The header that declares the connections. -/
def headerOf (connections : List UpstreamConnection) : List Byte :=
  UPSTREAM_MAGIC ++ le16 UPSTREAM_FORMAT_VERSION ++ le16 (UInt16.ofNat connections.length) ++
    connections.flatMap (·.declaration)

/-- An object that holds the messages. -/
def object (connections : List UpstreamConnection) (messages : List UpstreamRecord) : List Byte :=
  headerOf connections ++ (messages.map (·.encode)).flatten

/-- Connections that a header can declare. -/
structure Declarable (connections : List UpstreamConnection) : Prop where
  count : connections.length ≤ MAX_UPSTREAM_CONNECTIONS.toNat
  names : (connections.map (·.name)).Nodup
  lengths : ∀ c ∈ connections, c.name.length < 2 ^ 16

/-- A message of a declared connection, within the bound. -/
structure Fits (connections : List UpstreamConnection) (m : UpstreamRecord) : Prop where
  declared : m.connection.toNat < connections.length
  bound : m.bytes.length ≤ MAX_UPSTREAM_MESSAGE_BYTES.toNat

/-- The runs of a writer over an output in which no write fails: the messages it has accepted, and the
writer. -/
inductive Wrote (plan : List (Option ℕ)) (connections : List UpstreamConnection) :
    List UpstreamRecord → UpstreamSegmentWriter → Prop where
  | opened {w : UpstreamSegmentWriter}
      (h : UpstreamSegmentWriter.open ⟨plan, []⟩ connections = .ok w) : Wrote plan connections [] w
  | accepted {messages : List UpstreamRecord} {w w' : UpstreamSegmentWriter} {m : UpstreamRecord}
      (h : Wrote plan connections messages w) (hm : w.writeMessage m = (.ok (), w')) :
      Wrote plan connections (messages ++ [m]) w'
  | declined {messages : List UpstreamRecord} {w w' : UpstreamSegmentWriter} {m : UpstreamRecord}
      {refusal : Unencodable} (h : Wrote plan connections messages w)
      (hm : w.writeMessage m = (.error (.encode refusal), w')) : Wrote plan connections messages w'

theorem Output.writeAll_ok {o o' : Output} {runs : List (List Byte)}
    (h : o.writeAll runs = (true, o')) : o'.written = o.written ++ runs.flatten := by
  induction runs generalizing o with
  | nil =>
      cases h
      rw [List.flatten_nil, List.append_nil]
  | cons bytes more ih =>
      rw [Output.writeAll] at h
      split at h
      next => rw [ih h, List.flatten_cons, List.append_assoc]
      next => rw [ih h, List.flatten_cons, List.append_assoc]
      next => cases h

theorem declarations_ok {connections : List UpstreamConnection} {bytes : List Byte}
    (h : declarations connections = .ok bytes) :
    bytes = connections.flatMap (·.declaration) ∧ ∀ c ∈ connections, c.name.length < 2 ^ 16 := by
  induction connections generalizing bytes with
  | nil =>
      cases h
      exact ⟨rfl, by simp⟩
  | cons c connections ih =>
      rw [declarations] at h
      split at h
      next hlen =>
          obtain ⟨more, hmore, h⟩ := bind_eq_ok.mp h
          cases h
          obtain ⟨rfl, hlengths⟩ := ih hmore
          refine ⟨?_, List.forall_mem_cons.mpr ⟨hlen, hlengths⟩⟩
          rw [List.flatMap_cons, UpstreamConnection.declaration, List.append_assoc]
      next => cases h

namespace UpstreamSegmentWriter

variable {o : Output} {connections : List UpstreamConnection} {w w' : UpstreamSegmentWriter}
  {m : UpstreamRecord}

theorem open_ok (h : UpstreamSegmentWriter.open o connections = .ok w) :
    Declarable connections ∧ w.inner.written = o.written ++ headerOf connections ∧
      w.connections = connections := by
  rw [UpstreamSegmentWriter.open] at h
  split at h
  next => cases h
  next hsmall =>
      dsimp only at h
      split at h
      next => cases h
      next hcount =>
          split at h
          next => cases h
          next hnames =>
              obtain ⟨declared, hdeclared, h⟩ := bind_eq_ok.mp h
              obtain ⟨rfl, hlengths⟩ := declarations_ok hdeclared
              generalize hout : o.writeAll _ = out at h
              obtain ⟨done, o'⟩ := out
              cases done with
              | false => cases h
              | true =>
                  cases h
                  rw [UInt16.not_lt, UInt16.le_iff_toNat_le,
                    UInt16.toNat_ofNat_of_lt' (Nat.lt_of_not_le hsmall)] at hcount
                  refine ⟨⟨hcount, firstDuplicateName_eq_none.mp hnames, hlengths⟩, ?_, rfl⟩
                  rw [Output.writeAll_ok hout, List.flatten_singleton]
                  rfl

/-- A message that is accepted stands at the end of the object; one that is not encoded leaves no
trace. -/
theorem writeMessage_cases (h : w.writeMessage m = (Except.ok (), w')) :
    Fits w.connections m ∧ w'.inner.written = w.inner.written ++ m.encode ∧
      w'.connections = w.connections := by
  rw [writeMessage] at h
  split at h
  next => cases h
  next hdeclared =>
      dsimp only at h
      split at h
      next => cases h
      next hbound =>
          generalize hout : w.inner.writeAll _ = out at h
          obtain ⟨done, o'⟩ := out
          cases done with
          | false => cases h
          | true =>
              cases h
              obtain ⟨hbound, hlen⟩ := lenOf_le hbound
              refine ⟨⟨Nat.lt_of_not_le hdeclared, hbound⟩, ?_, rfl⟩
              rw [Output.writeAll_ok hout, hlen, UpstreamRecord.encode]
              simp only [List.flatten_cons, List.flatten_nil, List.append_nil, List.append_assoc]

theorem writeMessage_declined {refusal : Unencodable}
    (h : w.writeMessage m = (Except.error (.encode refusal), w')) : w' = w := by
  rw [writeMessage] at h
  split at h
  next =>
      cases h
      rfl
  next =>
      dsimp only at h
      split at h
      next =>
          cases h
          rfl
      next =>
          split at h
          next => cases h
          next => cases h

end UpstreamSegmentWriter

/-- What a writer has written. -/
theorem Wrote.spec {plan : List (Option ℕ)} {connections : List UpstreamConnection}
    {messages : List UpstreamRecord} {w : UpstreamSegmentWriter}
    (h : Wrote plan connections messages w) :
    w.connections = connections ∧ w.inner.written = object connections messages ∧
      Declarable connections ∧ ∀ m ∈ messages, Fits connections m := by
  induction h with
  | opened h =>
      obtain ⟨hdeclarable, hwritten, hconnections⟩ := UpstreamSegmentWriter.open_ok h
      refine ⟨hconnections, ?_, hdeclarable, by simp⟩
      rw [hwritten, object, List.map_nil, List.flatten_nil, List.append_nil, List.nil_append]
  | accepted _ hm ih =>
      obtain ⟨hconnections, hwritten, hdeclarable, hfits⟩ := ih
      obtain ⟨hfit, hwritten', hconnections'⟩ := UpstreamSegmentWriter.writeMessage_cases hm
      rw [hconnections] at hfit hconnections'
      refine ⟨hconnections', ?_, hdeclarable,
        List.forall_mem_append.mpr ⟨hfits, List.forall_mem_singleton.mpr hfit⟩⟩
      rw [hwritten', hwritten, object, object, List.map_append, List.flatten_append,
        List.append_assoc, List.map_singleton, List.flatten_singleton]
  | declined _ hm ih =>
      obtain rfl := UpstreamSegmentWriter.writeMessage_declined hm
      exact ih

/-! ## The header is read -/

/-- The bytes that a stream without failures still holds. -/
def Ahead (s : Source Byte) (bytes : List Byte) : Prop := s.Sound ∧ s.rest = bytes

section

variable {objectKey what : String} {messagesRead : UInt64} {n : ℕ} {s t : Source Byte}
  {rest : List Byte} {c : UpstreamConnection} {connections : List UpstreamConnection}

theorem of_readExact {got : List Byte}
    (h : readExact objectKey what messagesRead n s = .ok (got, t)) :
    got.length = n ∧ s.rest = got ++ t.rest := by
  unfold readExact at h
  generalize hout : s.fill n = out at h
  obtain ⟨_ | got', t'⟩ := out
  · cases h
  · dsimp only at h
    split at h
    next => cases h
    next hlen =>
        cases h
        obtain ⟨hgot, hrest⟩ := Source.of_fill hout
        have hle : got.length ≤ n := hgot ▸ List.length_take_le _ _
        refine ⟨Nat.le_antisymm hle (Nat.le_of_not_lt hlen), ?_⟩
        rw [hrest, hgot, List.take_append_drop]

theorem readExact_ahead (objectKey what : String) (messagesRead : UInt64) {bytes : List Byte}
    (h : Ahead s (bytes ++ rest)) (hn : bytes.length = n) :
    ∃ t, Ahead t rest ∧ readExact objectKey what messagesRead n s = .ok (bytes, t) := by
  obtain ⟨t, hsound, hrest, hfill⟩ := h.1.fill n
  refine ⟨t, ⟨hsound, ?_⟩, ?_⟩
  · rw [hrest, h.2, ← hn, List.drop_left]
  · rw [readExact, hfill, h.2, ← hn, List.take_left]
    exact if_neg (Nat.lt_irrefl _)

theorem of_readConnection (h : readConnection objectKey s = .ok (c, t)) :
    c.name.length < 2 ^ 16 ∧ s.rest = c.declaration ++ t.rest := by
  obtain ⟨entry, mid, hentry, h⟩ := stateT_bind_ok.mp h
  obtain ⟨hlen, hrest⟩ := of_readExact hentry
  generalize hkind : RecvTsKindLabel.fromByte (byteAt entry 2) = label at h
  cases label with
  | none => exact absurd h stateT_throw_ok
  | some kind =>
      obtain ⟨name, mid', hname, h⟩ := stateT_bind_ok.mp h
      obtain ⟨hnameLen, hrest'⟩ := of_readExact hname
      split at h
      next hutf8 =>
          obtain ⟨rfl, rfl⟩ := stateT_pure_ok.mp h
          refine ⟨hnameLen ▸ UInt16.toNat_lt _, ?_⟩
          dsimp only [UpstreamConnection.declaration]
          rw [hrest, hrest', hnameLen, UInt16.ofNat_toNat, le16_u16At (by omega),
            ← RecvTsKindLabel.fromByte_eq_some.mp hkind]
          obtain ⟨a, b, k, rfl⟩ := List.length_eq_three.mp hlen
          rfl
      next => exact absurd h stateT_throw_ok

theorem readConnection_ahead (h : Ahead s (c.declaration ++ rest)) (hlen : c.name.length < 2 ^ 16) :
    ∃ t, Ahead t rest ∧ readConnection objectKey s = .ok (c, t) := by
  have hsplit : c.declaration ++ rest = (le16 (UInt16.ofNat c.name.length) ++
      [c.recvTsKind.asByte]) ++ (c.name ++ rest) := by
    rw [UpstreamConnection.declaration, List.append_assoc, List.append_assoc]
    rfl
  rw [hsplit] at h
  obtain ⟨mid, hmid, hentry⟩ := readExact_ahead objectKey "a connection declaration" 0 h rfl
  obtain ⟨t, ht, hname⟩ := readExact_ahead objectKey "a connection name" 0 hmid rfl
  refine ⟨t, ht, stateT_bind_ok.mpr ⟨_, mid, hentry, ?_⟩⟩
  have hlen' : u16At (le16 (UInt16.ofNat c.name.length) ++ [c.recvTsKind.asByte]) 0 =
      UInt16.ofNat c.name.length := u16At_eq rfl
  have hkind : RecvTsKindLabel.fromByte (byteAt (le16 (UInt16.ofNat c.name.length) ++
      [c.recvTsKind.asByte]) 2) = some c.recvTsKind := RecvTsKindLabel.fromByte_eq_some.mpr rfl
  rw [hlen', hkind, UInt16.toNat_ofNat_of_lt' hlen]
  refine stateT_bind_ok.mpr ⟨c.name, t, hname, ?_⟩
  rw [dif_pos c.utf8]
  rfl

theorem of_readConnections (h : readConnections objectKey n s = .ok (connections, t)) :
    connections.length = n ∧ (∀ c ∈ connections, c.name.length < 2 ^ 16) ∧
      s.rest = connections.flatMap (·.declaration) ++ t.rest := by
  induction n generalizing s connections with
  | zero =>
      obtain ⟨rfl, rfl⟩ := stateT_pure_ok.mp h
      exact ⟨rfl, by simp, rfl⟩
  | succ n ih =>
      obtain ⟨c, mid, hc, h⟩ := stateT_bind_ok.mp h
      obtain ⟨more, mid', hmore, h⟩ := stateT_bind_ok.mp h
      obtain ⟨rfl, rfl⟩ := stateT_pure_ok.mp h
      obtain ⟨hlen, hrest⟩ := of_readConnection hc
      obtain ⟨rfl, hlengths, hrest'⟩ := ih hmore
      refine ⟨rfl, List.forall_mem_cons.mpr ⟨hlen, hlengths⟩, ?_⟩
      rw [hrest, hrest', List.flatMap_cons, List.append_assoc]

theorem readConnections_ahead (h : Ahead s (connections.flatMap (·.declaration) ++ rest))
    (hlengths : ∀ c ∈ connections, c.name.length < 2 ^ 16) :
    ∃ t, Ahead t rest ∧ readConnections objectKey connections.length s = .ok (connections, t) := by
  induction connections generalizing s with
  | nil => exact ⟨s, h, rfl⟩
  | cons c connections ih =>
      obtain ⟨hlen, hlengths⟩ := List.forall_mem_cons.mp hlengths
      rw [List.flatMap_cons, List.append_assoc] at h
      obtain ⟨mid, hmid, hc⟩ := readConnection_ahead h hlen
      obtain ⟨t, ht, hmore⟩ := ih hmid hlengths
      exact ⟨t, ht, stateT_bind_ok.mpr ⟨c, mid, hc, stateT_bind_ok.mpr ⟨connections, t, hmore, rfl⟩⟩⟩

/-- A header that is read declares connections that can be told apart. -/
theorem of_readHeader {version : UInt16}
    (h : readHeader objectKey s = .ok ((version, connections), t)) :
    Declarable connections ∧ s.rest = headerOf connections ++ t.rest := by
  obtain ⟨fixed, mid, hfixed, h⟩ := stateT_bind_ok.mp h
  obtain ⟨hlen, hrest⟩ := of_readExact hfixed
  split at h
  next => exact absurd h stateT_throw_ok
  next hmagic =>
      dsimp only at h
      split at h
      next => exact absurd h stateT_throw_ok
      next hversion =>
          split at h
          next => exact absurd h stateT_throw_ok
          next hcount =>
              obtain ⟨found, mid', hfound, h⟩ := stateT_bind_ok.mp h
              obtain ⟨hfoundLen, hlengths, hrest'⟩ := of_readConnections hfound
              generalize hnames : firstDuplicateName found = duplicate at h
              cases duplicate with
              | some entries => exact absurd h stateT_throw_ok
              | none =>
                  obtain ⟨heq, rfl⟩ := stateT_pure_ok.mp h
                  obtain ⟨-, rfl⟩ := Prod.mk.inj heq
                  rw [UInt16.not_lt, UInt16.le_iff_toNat_le, ← hfoundLen] at hcount
                  refine ⟨⟨hcount, firstDuplicateName_eq_none.mp hnames, hlengths⟩, ?_⟩
                  rw [headerOf, ← not_ne_iff.mp hmagic, ← not_ne_iff.mp hversion, hfoundLen,
                    UInt16.ofNat_toNat, le16_u16At (by omega), le16_u16At (by omega),
                    slice_append fixed 0 8 2, slice_append fixed 0 10 2,
                    show 10 + 2 = fixed.length from hlen.symm, slice_zero, hrest, hrest',
                    List.append_assoc]

theorem readHeader_ahead (objectKey : String) (h : Ahead s (headerOf connections ++ rest))
    (hdeclarable : Declarable connections) : ∃ t, Ahead t rest ∧
      readHeader objectKey s = .ok ((UPSTREAM_FORMAT_VERSION, connections), t) := by
  rw [headerOf, List.append_assoc] at h
  obtain ⟨mid, hmid, hfixed⟩ := readExact_ahead objectKey "the object header" 0 h rfl
  have hcount : (UInt16.ofNat connections.length).toNat = connections.length := by
    refine UInt16.toNat_ofNat_of_lt' (hdeclarable.count.trans_lt (by decide))
  obtain ⟨t, ht, hconnections⟩ := readConnections_ahead hmid hdeclarable.lengths
  refine ⟨t, ht, stateT_bind_ok.mpr ⟨_, mid, hfixed, ?_⟩⟩
  have hmagic : slice (UPSTREAM_MAGIC ++ le16 UPSTREAM_FORMAT_VERSION ++
      le16 (UInt16.ofNat connections.length)) 0 8 = UPSTREAM_MAGIC := rfl
  have hversion : u16At (UPSTREAM_MAGIC ++ le16 UPSTREAM_FORMAT_VERSION ++
      le16 (UInt16.ofNat connections.length)) 8 = UPSTREAM_FORMAT_VERSION := u16At_eq rfl
  have hcount' : u16At (UPSTREAM_MAGIC ++ le16 UPSTREAM_FORMAT_VERSION ++
      le16 (UInt16.ofNat connections.length)) 10 = UInt16.ofNat connections.length := u16At_eq rfl
  dsimp only
  rw [if_neg (not_ne_iff.mpr hmagic), hversion, if_neg (not_ne_iff.mpr rfl), hcount',
    if_neg (by
      rw [UInt16.not_lt, UInt16.le_iff_toNat_le, hcount]
      exact hdeclarable.count), hcount]
  refine stateT_bind_ok.mpr ⟨connections, t, hconnections, ?_⟩
  rw [firstDuplicateName_eq_none.mpr hdeclarable.names]
  rfl

end

end EdgeMulticast.Archive
