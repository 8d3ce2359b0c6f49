import Mathlib.Data.List.Nodup
import Yanta.Go.Base64
import Yanta.Support.Runs

/-!
# Chunked uploads

`ChunkedUploadManager`: a client opens a session, sends the chunks of a file in any order
and asks for the file once all of them have come. The methods of one session exclude each
other, so an operation is one step, and operations on different sessions touch different
entries of the table. The times are nanoseconds.
-/

namespace Yanta.Asset

open Go Support List Function Base64

def maxUploadSize : Int := 10 * 1024 * 1024

structure StartChunkedUploadRequest where
  projectAlias : String
  filename : String
  totalSize : Int
  totalChunks : Int
  mimeType : String
deriving DecidableEq, Repr

/-- A session; `chunks` has an entry for each key of the map. -/
structure UploadSession where
  projectAlias : String
  filename : String
  mimeType : String
  totalSize : Int
  totalChunks : Int
  chunks : List (Int × Bytes)
  receivedBytes : Int
  lastActivity : Int
deriving DecidableEq, Repr

structure ChunkedUploadManager where
  sessions : String → Option UploadSession
  sessionTimeout : Int

namespace ChunkedUploadManager

/-- `sessions.Store`. -/
def store (m : ChunkedUploadManager) (uploadID : String) (session : UploadSession) :
    ChunkedUploadManager :=
  { m with sessions := Function.update m.sessions uploadID (some session) }

/-- `sessions.Delete`. -/
def delete (m : ChunkedUploadManager) (uploadID : String) : ChunkedUploadManager :=
  { m with sessions := Function.update m.sessions uploadID none }

def expired (m : ChunkedUploadManager) (now : Int) (session : UploadSession) : Bool :=
  m.sessionTimeout < now - session.lastActivity

/-- `cleanupExpiredSessions`. -/
def cleanupExpiredSessions (m : ChunkedUploadManager) (now : Int) : ChunkedUploadManager :=
  { m with sessions := fun uploadID =>
      (m.sessions uploadID).filter fun session => !m.expired now session }

/-- `CreateSession`; the id is the one `uuid.New` draws. -/
def createSession (m : ChunkedUploadManager) (req : StartChunkedUploadRequest)
    (uploadID : String) (now : Int) : Except String String × ChunkedUploadManager :=
  if trimSpace req.projectAlias = "" then (.error "project alias is required", m)
  else if req.totalSize ≤ 0 then (.error "total size must be greater than 0", m)
  else if maxUploadSize < req.totalSize then
    (.error ("file too large: max " ++ decimalInt (maxUploadSize / (1024 * 1024)) ++ "MB"), m)
  else if req.totalChunks ≤ 0 then (.error "total chunks must be greater than 0", m)
  else
    (.ok uploadID, m.store uploadID
      { projectAlias := req.projectAlias
        filename := req.filename
        mimeType := req.mimeType
        totalSize := req.totalSize
        totalChunks := req.totalChunks
        chunks := []
        receivedBytes := 0
        lastActivity := now })

end ChunkedUploadManager

/-- `session.chunks[index]`. -/
def chunkAt? (chunks : List (Int × Bytes)) (index : Int) : Option Bytes :=
  (chunks.find? fun chunk => chunk.1 == index).map Prod.snd

/-- What `AddChunk` may still take. -/
def UploadSession.limit (session : UploadSession) : Int :=
  if maxUploadSize < session.totalSize then maxUploadSize else session.totalSize

def UploadSession.remaining (session : UploadSession) : Int :=
  if session.limit - session.receivedBytes < 0 then 0
  else session.limit - session.receivedBytes

/-- `AddChunk` on its session. The message of a text that is not base64 is the
decoder's. -/
def UploadSession.addChunk (corrupt : String → String) (session : UploadSession)
    (chunkIndex : Int) (base64Data : String) (now : Int) :
    Except String ((Int × Bool) × UploadSession) :=
  let tooLarge :=
    "upload exceeds declared size of " ++ decimalInt session.totalSize ++ " bytes"
  if chunkIndex < 0 ∨ session.totalChunks ≤ chunkIndex then
    .error ("chunk index out of range: " ++ decimalInt chunkIndex ++ " (expected 0-" ++
      decimalInt (session.totalChunks - 1) ++ ")")
  else if (chunkAt? session.chunks chunkIndex).isSome then
    .error ("chunk " ++ decimalInt chunkIndex ++ " already received")
  else if Base64.encodedLen session.remaining.toNat < len base64Data then .error tooLarge
  else
    match Base64.decodeString base64Data with
    | none => .error ("invalid base64 data: " ++ corrupt base64Data)
    | some data =>
      if session.limit < session.receivedBytes + data.length then .error tooLarge
      else
        let chunks := (chunkIndex, data) :: session.chunks
        .ok ((chunks.length, (chunks.length : Int) == session.totalChunks),
          { session with
            chunks := chunks
            receivedBytes := session.receivedBytes + data.length
            lastActivity := now })

/-- The indices no chunk has come for. -/
def UploadSession.missing (session : UploadSession) : List Nat :=
  (List.range session.totalChunks.toNat).filter fun i : Nat =>
    (chunkAt? session.chunks i).isNone

/-- The chunks in the order of their indices. -/
def UploadSession.assembled (session : UploadSession) : Bytes :=
  (List.range session.totalChunks.toNat).flatMap fun i : Nat =>
    (chunkAt? session.chunks i).getD []

namespace ChunkedUploadManager

/-- `AddChunk`. -/
def addChunk (corrupt : String → String) (m : ChunkedUploadManager) (uploadID : String)
    (chunkIndex : Int) (base64Data : String) (now : Int) :
    Except String (Int × Bool) × ChunkedUploadManager :=
  match m.sessions uploadID with
  | none => (.error ("upload session not found: " ++ uploadID), m)
  | some session =>
    match session.addChunk corrupt chunkIndex base64Data now with
    | .error e => (.error e, m)
    | .ok (response, session) => (.ok response, m.store uploadID session)

/-- `AssembleAndRemove`. -/
def assembleAndRemove (m : ChunkedUploadManager) (uploadID : String) :
    Except String (Bytes × UploadSession) × ChunkedUploadManager :=
  match m.sessions uploadID with
  | none => (.error ("upload session not found: " ++ uploadID), m)
  | some session =>
    if (session.chunks.length : Int) ≠ session.totalChunks then
      (.error ("missing chunks: [" ++ join (session.missing.map decimal) " " ++
        "] (received " ++ decimal session.chunks.length ++ " of " ++
        decimalInt session.totalChunks ++ ")"), m)
    else (.ok (session.assembled, session), m.delete uploadID)

/-- `RemoveSession`. -/
def removeSession (m : ChunkedUploadManager) (uploadID : String) :
    Except String Unit × ChunkedUploadManager :=
  match m.sessions uploadID with
  | none => (.error ("upload session not found: " ++ uploadID), m)
  | some _ => (.ok (), m.delete uploadID)

end ChunkedUploadManager

/-! ## Runs -/

inductive UploadEvent where
  | createSession (req : StartChunkedUploadRequest) (uploadID : String) (now : Int)
  | addChunk (uploadID : String) (chunkIndex : Int) (base64Data : String) (now : Int)
  | assembleAndRemove (uploadID : String)
  | removeSession (uploadID : String)
  | cleanupExpiredSessions (now : Int)
deriving DecidableEq, Repr

section

variable (corrupt : String → String)

/-- One operation; the manager always answers. -/
def uploadStep (m : ChunkedUploadManager) : UploadEvent → Option ChunkedUploadManager
  | .createSession req uploadID now => some (m.createSession req uploadID now).2
  | .addChunk uploadID chunkIndex base64Data now =>
    some (m.addChunk corrupt uploadID chunkIndex base64Data now).2
  | .assembleAndRemove uploadID => some (m.assembleAndRemove uploadID).2
  | .removeSession uploadID => some (m.removeSession uploadID).2
  | .cleanupExpiredSessions now => some (m.cleanupExpiredSessions now)

end

/-- The indices of `count` chunks. -/
def allIndices (count : Nat) : List Int := (List.range count).map fun i : Nat => (i : Int)

/-- The chunk that the client keeps for an index. -/
def pieceAt (pieces : List Bytes) (index : Int) : Bytes := pieces.getD index.toNat []

/-- The chunks that were sent for a session, by their indices. -/
def sentTo (uploadID : String) : List UploadEvent → List Int
  | [] => []
  | .addChunk uploadID' chunkIndex _ _ :: es =>
    if uploadID' = uploadID then chunkIndex :: sentTo uploadID es else sentTo uploadID es
  | _ :: es => sentTo uploadID es

/-- What may happen while a client uploads `pieces`: it sends each piece as base64 under
its index; the other operations are on other sessions, and the session does not expire. -/
def Uploading (uploadID : String) (pieces : List Bytes) (m : ChunkedUploadManager) :
    UploadEvent → Prop
  | .createSession _ uploadID' _ => uploadID' ≠ uploadID
  | .addChunk uploadID' chunkIndex base64Data _ => uploadID' = uploadID →
      base64Data = Base64.encodeToString (pieceAt pieces chunkIndex)
  | .assembleAndRemove uploadID' => uploadID' ≠ uploadID
  | .removeSession uploadID' => uploadID' ≠ uploadID
  | .cleanupExpiredSessions now =>
    ∀ session, m.sessions uploadID = some session → m.expired now session = false

/-- The bytes of the stored chunks. -/
def storedBytes (chunks : List (Int × Bytes)) : Nat := (chunks.flatMap Prod.snd).length

/-- The session has got the pieces with these indices, the last one first. -/
structure Received (uploadID : String) (req : StartChunkedUploadRequest)
    (pieces : List Bytes) (indices : List Int) (m : ChunkedUploadManager)
    (session : UploadSession) : Prop where
  found : m.sessions uploadID = some session
  size : session.totalSize = req.totalSize
  count : session.totalChunks = req.totalChunks
  chunks : session.chunks = indices.map fun i => (i, pieceAt pieces i)
  bytes : session.receivedBytes = storedBytes session.chunks

/-- The pieces with these indices may all be sent: no index twice, each one declared, and
no more bytes than declared. -/
structure Fits (req : StartChunkedUploadRequest) (pieces : List Bytes)
    (indices : List Int) : Prop where
  nodup : indices.Nodup
  range : ∀ i ∈ indices, 0 ≤ i ∧ i < req.totalChunks
  bytes : ((indices.flatMap (pieceAt pieces)).length : Int) ≤ req.totalSize

variable {req : StartChunkedUploadRequest}

theorem Fits.of_append {pieces : List Bytes} {later indices : List Int}
    (h : Fits req pieces (later ++ indices)) : Fits req pieces indices := by
  refine ⟨(nodup_append.mp h.nodup).2.1,
    fun i hi => h.range i (mem_append_right later hi), ?_⟩
  have hbytes := h.bytes
  rw [flatMap_append, length_append] at hbytes
  omega

/-! ## Opening a session -/

variable {uploadID' : String}

open ChunkedUploadManager

/-- What `CreateSession` has checked, and the session it stores. -/
theorem createSession_eq_ok {m : ChunkedUploadManager} {uploadID : String} {now : Int}
    (h : (m.createSession req uploadID now).1 = .ok uploadID') :
    0 < req.totalSize ∧ req.totalSize ≤ maxUploadSize ∧ 0 < req.totalChunks ∧
      ∃ session, Received uploadID req [] [] (m.createSession req uploadID now).2 session := by
  unfold createSession at h ⊢
  split_ifs at h ⊢ with halias hsize hmax hchunks
  refine ⟨by omega, by omega, by omega, _, update_self .., rfl, rfl, rfl, rfl⟩

theorem Received.start {uploadID : String} {m : ChunkedUploadManager} {session : UploadSession}
    (h : Received uploadID req [] [] m session) (pieces : List Bytes) :
    Received uploadID req pieces [] m session :=
  { h with }

/-! ## One chunk -/

section

variable {uploadID : String} {req : StartChunkedUploadRequest} {pieces : List Bytes}
  {indices : List Int} {m : ChunkedUploadManager} {session : UploadSession}

theorem chunkAt?_map (pieces : List Bytes) (indices : List Int) (i : Int) :
    chunkAt? (indices.map fun i => (i, pieceAt pieces i)) i =
      if i ∈ indices then some (pieceAt pieces i) else none := by
  induction indices with
  | nil => rfl
  | cons j indices ih =>
    by_cases hj : j = i
    · simp [chunkAt?, hj]
    · have hne : i ≠ j := fun h => hj h.symm
      rw [map_cons, chunkAt?, List.find?_cons_of_neg (by simpa using hj), ← chunkAt?, ih]
      simp [hne]

theorem storedBytes_map (pieces : List Bytes) (indices : List Int) :
    storedBytes (indices.map fun i => (i, pieceAt pieces i)) =
      (indices.flatMap (pieceAt pieces)).length := by
  rw [storedBytes, flatMap_map]

/-- A piece that fits is taken. -/
theorem Received.addChunk (corrupt : String → String)
    (h : Received uploadID req pieces indices m session)
    (hmax : req.totalSize ≤ maxUploadSize) {i : Int} (hfits : Fits req pieces (i :: indices))
    (now : Int) :
    ∃ session',
      m.addChunk corrupt uploadID i (Base64.encodeToString (pieceAt pieces i)) now =
        (.ok (indices.length + 1, ((indices.length : Int) + 1 == req.totalChunks)),
          m.store uploadID session') ∧
      Received uploadID req pieces (i :: indices) (m.store uploadID session') session' := by
  obtain ⟨hrange, hnew⟩ : (0 ≤ i ∧ i < req.totalChunks) ∧ i ∉ indices :=
    ⟨hfits.range i mem_cons_self, (nodup_cons.mp hfits.nodup).1⟩
  have hbytes := hfits.bytes
  rw [flatMap_cons, length_append, ← storedBytes_map, ← h.chunks,
    Int.natCast_add, ← h.bytes] at hbytes
  have hlimit : session.limit = req.totalSize := by
    rw [UploadSession.limit, h.size, if_neg (by omega)]
  have hindex : ¬(i < 0 ∨ req.totalChunks ≤ i) := by omega
  have habsent : chunkAt? session.chunks i = none := by
    rw [h.chunks, chunkAt?_map, if_neg hnew]
  have hpreflight : ¬encodedLen session.remaining.toNat <
      len (encodeToString (pieceAt pieces i)) := by
    rw [len_encodeToString, not_lt]
    apply encodedLen_mono
    rw [UploadSession.remaining]
    split_ifs <;> omega
  have hgate : ¬session.limit < session.receivedBytes + (pieceAt pieces i).length := by
    omega
  have hcount : session.chunks.length = indices.length := by
    rw [h.chunks, length_map]
  refine ⟨{ session with
      chunks := (i, pieceAt pieces i) :: session.chunks
      receivedBytes := session.receivedBytes + (pieceAt pieces i).length
      lastActivity := now }, ?_, ?_⟩
  · simp [ChunkedUploadManager.addChunk, h.found, UploadSession.addChunk, hindex, habsent,
      hpreflight, decodeString_encodeToString, hgate, hcount, h.count]
  · refine ⟨update_self .., h.size, h.count, ?_, ?_⟩
    · simp [h.chunks]
    · simp only [h.bytes, storedBytes, flatMap_cons, length_append]
      omega

end

/-! ## Whole uploads -/

section

variable {corrupt : String → String} {uploadID : String} {req : StartChunkedUploadRequest}
  {pieces : List Bytes} {indices : List Int} {m m' : ChunkedUploadManager}
  {session : UploadSession}

/-- Another session's operation leaves the session alone. -/
theorem sessions_store_of_ne (h : uploadID' ≠ uploadID) (session : UploadSession) :
    (m.store uploadID' session).sessions uploadID = m.sessions uploadID :=
  update_of_ne h.symm _ _

theorem sessions_delete_of_ne (h : uploadID' ≠ uploadID) :
    (m.delete uploadID').sessions uploadID = m.sessions uploadID :=
  update_of_ne h.symm _ _

theorem sessions_addChunk_of_ne (h : uploadID' ≠ uploadID) (i : Int) (data : String) (now : Int) :
    (m.addChunk corrupt uploadID' i data now).2.sessions uploadID = m.sessions uploadID := by
  unfold addChunk
  split
  · rfl
  · split
    · rfl
    · exact sessions_store_of_ne h _

theorem sessions_step_of_other {e : UploadEvent}
    (hfound : m.sessions uploadID = some session) (hguard : Uploading uploadID pieces m e)
    (hother : sentTo uploadID [e] = []) :
    ∃ m', uploadStep corrupt m e = some m' ∧ m'.sessions uploadID = some session := by
  cases e with
  | createSession req' uploadID' now =>
    refine ⟨_, rfl, ?_⟩
    rw [← hfound]
    unfold createSession
    split_ifs
    · rfl
    · rfl
    · rfl
    · rfl
    · exact sessions_store_of_ne hguard _
  | addChunk uploadID' i data now =>
    have hne : uploadID' ≠ uploadID := by
      intro heq
      simp [sentTo, heq] at hother
    exact ⟨_, rfl, by rw [← hfound]; exact sessions_addChunk_of_ne hne i data now⟩
  | assembleAndRemove uploadID' =>
    refine ⟨_, rfl, ?_⟩
    rw [← hfound]
    unfold assembleAndRemove
    split
    · rfl
    · split
      · rfl
      · exact sessions_delete_of_ne hguard
  | removeSession uploadID' =>
    refine ⟨_, rfl, ?_⟩
    rw [← hfound]
    unfold removeSession
    split
    · rfl
    · exact sessions_delete_of_ne hguard
  | cleanupExpiredSessions now =>
    have hfresh := hguard session hfound
    refine ⟨_, rfl, ?_⟩
    simp [cleanupExpiredSessions, hfound, hfresh]

theorem sentTo_append (uploadID : String) (es fs : List UploadEvent) :
    sentTo uploadID (es ++ fs) = sentTo uploadID es ++ sentTo uploadID fs := by
  induction es with
  | nil => rfl
  | cons e es ih =>
    cases e with
    | addChunk uploadID' i data now =>
      by_cases heq : uploadID' = uploadID <;> simp [sentTo, heq, ih]
    | _ => exact ih

section

variable (h : Received uploadID req pieces indices m session)
  (hmax : req.totalSize ≤ maxUploadSize)

include h hmax

/-- One operation during an upload: the session has the pieces sent to it. -/
theorem Received.step {e : UploadEvent} (hguard : Uploading uploadID pieces m e)
    (hfits : Fits req pieces ((sentTo uploadID [e]).reverse ++ indices)) :
    ∃ m' session', uploadStep corrupt m e = some m' ∧
      Received uploadID req pieces ((sentTo uploadID [e]).reverse ++ indices) m' session' := by
  by_cases hother : sentTo uploadID [e] = []
  · obtain ⟨m', hstep, hfound⟩ := sessions_step_of_other h.found hguard hother
    refine ⟨m', session, hstep, ?_⟩
    rw [hother]
    exact ⟨hfound, h.size, h.count, h.chunks, h.bytes⟩
  · cases e with
    | addChunk uploadID' i data now =>
      have heq : uploadID' = uploadID := by
        by_contra hne
        simp [sentTo, hne] at hother
      have hsent : sentTo uploadID [.addChunk uploadID' i data now] = [i] := by
        simp [sentTo, heq]
      rw [hsent] at hfits ⊢
      obtain ⟨session', hadd, hreceived⟩ := h.addChunk corrupt hmax hfits now
      refine ⟨_, session', ?_, hreceived⟩
      rw [uploadStep, hguard heq, heq, hadd]
    | _ => exact absurd rfl hother

theorem Received.run {es : List UploadEvent}
    (hguard : Guarded (uploadStep corrupt) (Uploading uploadID pieces) m es)
    (hfits : Fits req pieces ((sentTo uploadID es).reverse ++ indices)) :
    ∃ m' session', Support.run (uploadStep corrupt) m es = some m' ∧
      Received uploadID req pieces ((sentTo uploadID es).reverse ++ indices) m' session' := by
  induction es generalizing m session indices with
  | nil => exact ⟨m, session, rfl, h⟩
  | cons e es ih =>
    have hsent : (sentTo uploadID (e :: es)).reverse ++ indices =
        (sentTo uploadID es).reverse ++ ((sentTo uploadID [e]).reverse ++ indices) := by
      rw [← singleton_append, sentTo_append, reverse_append, append_assoc]
    rw [hsent] at hfits ⊢
    obtain ⟨m', session', hstep, hreceived⟩ := h.step hmax hguard.1
      hfits.of_append
    obtain ⟨m'', session'', hrun, hfinal⟩ := ih hreceived (hguard.2 m' hstep) hfits
    exact ⟨m'', session'', run_cons_eq_some.mpr ⟨m', hstep, hrun⟩, hfinal⟩

end

theorem flatMap_pieceAt (pieces : List Bytes) :
    (allIndices pieces.length).flatMap (pieceAt pieces) = pieces.flatten := by
  have hpieces : (List.range pieces.length).map (fun i : Nat => pieceAt pieces i) =
      pieces := by
    apply ext_getElem
    · simp
    · intro i hi hi'
      simp [pieceAt, hi']
  rw [allIndices, flatMap_map]
  exact congrArg List.flatten hpieces

/-- All pieces, each index once, fit. -/
theorem fits_of_perm {bytes : Bytes} (hsize : req.totalSize = bytes.length)
    (hcut : pieces.flatten = bytes) (hcount : req.totalChunks = pieces.length)
    (hperm : indices.Perm (allIndices pieces.length)) :
    Fits req pieces indices := by
  refine ⟨?_, ?_, ?_⟩
  · rw [hperm.nodup_iff]
    exact List.Nodup.map (fun i j hij => Int.ofNat.inj hij) nodup_range
  · intro i hi
    rw [hperm.mem_iff, allIndices, mem_map] at hi
    obtain ⟨n, hn, rfl⟩ := hi
    rw [mem_range] at hn
    rw [hcount]
    constructor
    · exact Int.natCast_nonneg n
    · exact Int.ofNat_lt.mpr hn
  · have hflat := (hperm.flatMap_right (pieceAt pieces)).length_eq
    rw [flatMap_pieceAt, hcut] at hflat
    rw [hflat, hsize]

/-- The chunks come out in the order of their indices. -/
theorem Received.assembled (h : Received uploadID req pieces indices m session)
    (hcount : req.totalChunks = pieces.length)
    (hperm : indices.Perm (allIndices pieces.length)) :
    session.assembled = pieces.flatten := by
  rw [UploadSession.assembled, h.count, hcount, ← flatMap_pieceAt, allIndices,
    flatMap_map]
  apply flatMap_congr
  intro i hi
  have hin : (i : Int) ∈ indices := by
    rw [hperm.mem_iff]
    exact mem_map.mpr ⟨i, hi, rfl⟩
  rw [h.chunks, chunkAt?_map, if_pos hin]
  rfl

end

/-- An upload gives the file back. Whatever the order of the chunks and whatever happens
to the other sessions, every chunk is accepted, the counter is the size of what is stored
and stays within the declared size, and assembling returns the bytes and ends the session. -/
theorem chunked_upload_reassembles (corrupt : String → String) {m : ChunkedUploadManager}
    {req : StartChunkedUploadRequest} {uploadID : String} {now : Int} {bytes : Bytes}
    {pieces : List Bytes} {es : List UploadEvent}
    (hcreate : (m.createSession req uploadID now).1 = .ok uploadID)
    (hsize : req.totalSize = bytes.length) (hcut : pieces.flatten = bytes)
    (hcount : req.totalChunks = pieces.length)
    (hguard : Guarded (uploadStep corrupt) (Uploading uploadID pieces)
      (m.createSession req uploadID now).2 es)
    (honce : (sentTo uploadID es).Perm (allIndices pieces.length)) :
    (∀ before after, es = before ++ after →
      ∃ m' session, run (uploadStep corrupt) (m.createSession req uploadID now).2 before =
          some m' ∧
        m'.sessions uploadID = some session ∧
        session.receivedBytes = storedBytes session.chunks ∧
        session.receivedBytes ≤ req.totalSize ∧
        ∀ i data time rest, after = .addChunk uploadID i data time :: rest →
          ∃ response, (m'.addChunk corrupt uploadID i data time).1 = .ok response) ∧
      ∃ m' session m'',
        run (uploadStep corrupt) (m.createSession req uploadID now).2 es = some m' ∧
        m'.assembleAndRemove uploadID = (.ok (bytes, session), m'') ∧
        m''.sessions uploadID = none := by
  obtain ⟨hpos, hmax, -, session, hstart⟩ := createSession_eq_ok hcreate
  have hstart := hstart.start pieces
  have hall := (reverse_perm _).trans honce
  have hfits := fits_of_perm hsize hcut hcount hall
  constructor
  · rintro before after rfl
    rw [sentTo_append, reverse_append] at hfits
    have hbefore := hfits.of_append
    obtain ⟨m', session', hrun, hreceived⟩ := hstart.run hmax hguard.left
      (by simpa using hbefore)
    rw [append_nil] at hreceived
    refine ⟨m', session', hrun, hreceived.found, hreceived.bytes, ?_, ?_⟩
    · rw [hreceived.bytes, hreceived.chunks, storedBytes_map]
      exact hbefore.bytes
    · rintro i data time rest rfl
      have hdata := (hguard.right hrun).1 rfl
      have hnext : Fits req pieces
          ((sentTo uploadID rest).reverse ++ i :: (sentTo uploadID before).reverse) := by
        simpa [sentTo] using hfits
      obtain ⟨session'', hadd, -⟩ := hreceived.addChunk corrupt hmax hnext.of_append time
      rw [hdata, hadd]
      exact ⟨_, rfl⟩
  · obtain ⟨m', session', hrun, hreceived⟩ := hstart.run hmax hguard (by simpa using hfits)
    rw [append_nil] at hreceived
    have hcomplete : (session'.chunks.length : Int) = session'.totalChunks := by
      have hlength := hall.length_eq
      rw [hreceived.chunks, hreceived.count, hcount, length_map, hlength, allIndices,
        length_map, length_range]
    have hassembled := hreceived.assembled hcount hall
    refine ⟨m', session', m'.delete uploadID, hrun, ?_, update_self ..⟩
    rw [assembleAndRemove, hreceived.found]
    simp [hcomplete, hassembled, hcut]

/-- Two chunks in the other order, with another client's session opened in between. -/
def twoChunks : List UploadEvent :=
  [.addChunk "u1" 1 "BAU=" 1, .createSession ⟨"@notes", "b.png", 1, 1, ""⟩ "u2" 2,
    .addChunk "u1" 0 "AQID" 3]

theorem chunked_upload_reassembles_sample :
    ∃ m' session m'',
      run (uploadStep id)
        ((ChunkedUploadManager.mk (fun _ => none) 300).createSession
          ⟨"@notes", "a.png", 5, 2, "image/png"⟩ "u1" 0).2 twoChunks = some m' ∧
      m'.assembleAndRemove "u1" = (.ok ([1, 2, 3, 4, 5], session), m'') ∧
      m''.sessions "u1" = none := by
  have hcut : ([[1, 2, 3], [4, 5]] : List Bytes).flatten = [1, 2, 3, 4, 5] := rfl
  have hguard : ∀ m, Guarded (uploadStep id) (Uploading "u1" [[1, 2, 3], [4, 5]]) m
      twoChunks := by
    intro m
    refine ⟨fun _ => ?_, fun s hs => ⟨?_, fun s' hs' => ⟨fun _ => ?_, fun _ _ => trivial⟩⟩⟩
    · decide +kernel
    · change "u2" ≠ "u1"
      decide
    · decide +kernel
  exact (chunked_upload_reassembles id (by decide) (by decide) hcut (by decide)
    (hguard _) (by decide)).2

end Yanta.Asset
