import Mathlib.Data.List.Sort
import Yanta.Go.Bytes
import Yanta.Go.Errors
import Yanta.Go.Strings
import Yanta.Support.Terminated

/-!
# Signatures of plugin packages

`internal/plugins/signing.go`: the digest of an unpacked package and the check
of its signature. The digest hashes, in the order of the paths, each path and
each content followed by a zero byte. Nothing marks where a content ends, so the
bytes hashed do not determine the tree: a content that holds zero bytes may be
read as several files.
-/

namespace Yanta.Plugin

open Go Support List

/-- The path of a file below the root of a package, with slashes; no path of a
file system contains a NUL. -/
structure PackagePath where
  text : String
  noNul : '\x00' ∉ text.toList
deriving DecidableEq

theorem PackagePath.ext_text {p q : PackagePath} (h : p.text = q.text) : p = q := by
  obtain ⟨text, noNul⟩ := p
  obtain ⟨text', noNul'⟩ := q
  simpa using h

abbrev PackageFile := PackagePath × Bytes

/-- The files of an unpacked package. -/
structure PackageTree where
  files : List PackageFile
  nodup : (files.map Prod.fst).Nodup

def packageSignatureFile : PackagePath := ⟨"signature.json", by decide⟩

/-- The order of `sort.Strings`: byte by byte. -/
def pathLe (f g : PackageFile) : Prop :=
  (bytesOf f.1.text).map UInt8.toNat ≤ (bytesOf g.1.text).map UInt8.toNat

instance : DecidableRel pathLe := fun f g =>
  inferInstanceAs (Decidable
    ((bytesOf f.1.text).map UInt8.toNat ≤ (bytesOf g.1.text).map UInt8.toNat))

instance : Std.Total pathLe := ⟨fun _ _ => le_total _ _⟩

instance : IsTrans PackageFile pathLe := ⟨fun _ _ _ => le_trans⟩

/-- The files that `computePluginDigest` reads, in the order it reads them. -/
def signedFiles (tree : PackageTree) : List PackageFile :=
  (tree.files.filter fun f => f.1 ≠ packageSignatureFile).insertionSort pathLe

/-- The bytes that `computePluginDigest` writes to the hash. -/
def digestInput (tree : PackageTree) : Bytes :=
  (signedFiles tree).flatMap fun f => bytesOf f.1.text ++ [0] ++ f.2 ++ [0]

/-- The trees differ in a path or a content outside the signature file. -/
def Differ (tree tree' : PackageTree) : Prop :=
  ∃ f : PackageFile, f.1 ≠ packageSignatureFile ∧
    ¬ (f ∈ tree.files ↔ f ∈ tree'.files)

/-! ## The trees and the lists that are hashed -/

variable {f : PackageFile}

theorem pathLe_antisymm {g : PackageFile} (h : pathLe f g) (h' : pathLe g f) : f.1 = g.1 := by
  have hmap : Function.Injective (List.map UInt8.toNat) :=
    map_injective_iff.mpr fun _ _ => UInt8.toNat_inj.mp
  apply PackagePath.ext_text
  apply bytesOf_injective
  apply hmap
  exact le_antisymm h h'

variable {tree : PackageTree}

theorem mem_signedFiles :
    f ∈ signedFiles tree ↔ f ∈ tree.files ∧ f.1 ≠ packageSignatureFile := by
  simp [signedFiles]

/-- A path has one content. -/
theorem PackageTree.content_unique {g : PackageFile} (hf : f ∈ tree.files) (hg : g ∈ tree.files)
    (h : f.1 = g.1) : f = g :=
  inj_on_of_nodup_map tree.nodup hf hg h

theorem signedFiles_nodup (tree : PackageTree) : (signedFiles tree).Nodup := by
  have hfiles : tree.files.Nodup := tree.nodup.of_map
  rw [signedFiles, (perm_insertionSort _ _).nodup_iff]
  exact hfiles.filter _

variable {tree' : PackageTree}

/-- The trees differ exactly when the lists of their signed files do. -/
theorem differ_iff : Differ tree tree' ↔ signedFiles tree ≠ signedFiles tree' := by
  constructor
  · rintro ⟨f, hsig, hf⟩ heq
    apply hf
    have hmem : f ∈ signedFiles tree ↔ f ∈ signedFiles tree' := by rw [heq]
    simpa [mem_signedFiles, hsig] using hmem
  · intro hne
    by_contra hsame
    apply hne
    have hmem : ∀ f, f ∈ signedFiles tree ↔ f ∈ signedFiles tree' := by
      intro f
      rw [mem_signedFiles, mem_signedFiles]
      refine and_congr_left fun hsig => ?_
      by_contra hf
      exact hsame ⟨f, hsig, hf⟩
    refine List.Perm.eq_of_pairwise ?_ (pairwise_insertionSort _ _)
      (pairwise_insertionSort _ _)
      ((perm_ext_iff_of_nodup (signedFiles_nodup tree)
        (signedFiles_nodup tree')).mpr hmem)
    intro f g hf hg hfg hgf
    have hg' := (hmem g).mpr hg
    exact tree.content_unique (mem_signedFiles.mp hf).1 (mem_signedFiles.mp hg').1
      (pathLe_antisymm hfg hgf)

/-! ## The bytes hashed and the pieces between zero bytes -/

/-- The pieces of one file: its path, and its content cut at the zero bytes. -/
def filePieces (f : PackageFile) : List Bytes :=
  bytesOf f.1.text :: f.2.splitOn 0

def digestPieces (tree : PackageTree) : List Bytes :=
  (signedFiles tree).flatMap filePieces

/-- The number of zero bytes in each content, in the order of the paths. -/
def zeroCounts (tree : PackageTree) : List Nat :=
  (signedFiles tree).map fun f => f.2.count 0

/-- The trees spell the same pieces but group them into files differently. -/
def Regrouped (tree tree' : PackageTree) : Prop :=
  digestPieces tree = digestPieces tree' ∧ zeroCounts tree ≠ zeroCounts tree'

theorem zero_notMem_filePieces {piece : Bytes} (h : piece ∈ filePieces f) : 0 ∉ piece := by
  rcases mem_cons.mp h with rfl | h
  · exact zero_notMem_bytesOf f.1.noNul
  · exact notMem_of_mem_splitOn h

theorem digestInput_eq (tree : PackageTree) :
    digestInput tree = terminated 0 (digestPieces tree) := by
  unfold digestInput digestPieces
  induction signedFiles tree with
  | nil => rfl
  | cons f fs ih =>
    rw [flatMap_cons, flatMap_cons, terminated_append, filePieces,
      terminated_cons, terminated_splitOn, ih]
    simp

/-- The bytes hashed are the same exactly when the pieces are. -/
theorem digestInput_eq_iff :
    digestInput tree = digestInput tree' ↔ digestPieces tree = digestPieces tree' := by
  have hfree : ∀ t : PackageTree, ∀ piece ∈ digestPieces t, 0 ∉ piece := by
    intro t piece hpiece
    obtain ⟨f, -, hf⟩ := mem_flatMap.mp hpiece
    exact zero_notMem_filePieces hf
  rw [digestInput_eq, digestInput_eq]
  exact terminated_inj (hfree tree) (hfree tree')

/-- Pieces together with the number of zero bytes of each file determine the
files. -/
theorem files_eq_of_pieces {fs gs : List PackageFile}
    (hpieces : fs.flatMap filePieces = gs.flatMap filePieces)
    (hcounts : (fs.map fun f => f.2.count 0) = gs.map fun g => g.2.count 0) :
    fs = gs := by
  induction fs generalizing gs with
  | nil =>
    cases gs with
    | nil => rfl
    | cons g gs => simp at hcounts
  | cons f fs ih =>
    cases gs with
    | nil => simp at hcounts
    | cons g gs =>
      rw [map_cons, map_cons, List.cons.injEq] at hcounts
      have hlength : (filePieces f).length = (filePieces g).length := by
        simp [filePieces, length_splitOn, hcounts.1]
      obtain ⟨hhead, htail⟩ := append_inj hpieces hlength
      rw [ih htail hcounts.2]
      congr 1
      rw [filePieces, filePieces, List.cons.injEq] at hhead
      have hpath : f.1 = g.1 :=
        PackagePath.ext_text (bytesOf_injective hhead.1)
      have hcontent : f.2 = g.2 := by
        calc
          f.2 = [0].intercalate (f.2.splitOn 0) :=
            (intercalate_splitOn 0).symm
          _ = g.2 := by rw [hhead.2, intercalate_splitOn]
      exact Prod.ext hpath hcontent

/-- Two trees that differ feed the same bytes to the hash exactly when one
groups the pieces of the other differently. -/
theorem differ_and_digestInput_eq_iff :
    (Differ tree tree' ∧ digestInput tree = digestInput tree') ↔
      Regrouped tree tree' := by
  rw [differ_iff, digestInput_eq_iff]
  constructor
  · rintro ⟨hdiffer, hpieces⟩
    refine ⟨hpieces, fun hcounts => hdiffer ?_⟩
    exact files_eq_of_pieces hpieces hcounts
  · rintro ⟨hpieces, hcounts⟩
    refine ⟨fun heq => hcounts ?_, hpieces⟩
    rw [zeroCounts, zeroCounts, heq]

/-- Contents without zero bytes are never regrouped. -/
theorem not_regrouped_of_noZero (h : ∀ f ∈ tree.files, 0 ∉ f.2)
    (h' : ∀ f ∈ tree'.files, 0 ∉ f.2) : ¬ Regrouped tree tree' := by
  have hcounts : ∀ t : PackageTree, (∀ f ∈ t.files, 0 ∉ f.2) →
      zeroCounts t = List.replicate (signedFiles t).length 0 := by
    intro t ht
    rw [← map_const']
    refine map_congr_left fun f hf => ?_
    exact count_eq_zero.mpr (ht f (mem_signedFiles.mp hf).1)
  have hlength : ∀ t : PackageTree, (∀ f ∈ t.files, 0 ∉ f.2) →
      (digestPieces t).length = (signedFiles t).length * 2 := by
    intro t ht
    rw [digestPieces, length_flatMap, map_congr_left (g := fun _ => 2), map_const',
      sum_replicate_nat]
    intro f hf
    have hzero := count_eq_zero.mpr (ht f (mem_signedFiles.mp hf).1)
    simp [filePieces, length_splitOn, hzero]
  rintro ⟨hpieces, hne⟩
  apply hne
  have hlen := congrArg List.length hpieces
  rw [hlength tree h, hlength tree' h'] at hlen
  rw [hcounts tree h, hcounts tree' h']
  congr 1
  omega

/-! ## Checking a signature -/

structure PackageSignature where
  algorithm : String
  publisherId : String
  keyId : String
  digest : String
  signature : String
deriving DecidableEq, Repr

structure TrustedPublisherKey where
  publisherId : String
  algorithm : String
  publicKey : String
deriving DecidableEq, Repr

/-- The file of trusted keys, by key id. -/
abbrev TrustedKeys := String → Option TrustedPublisherKey

/-- What an install records about its source. -/
structure InstallMetadata where
  source : String
  isolation : String
  canExecute : Bool
  verificationStatus : String
  publisherId : String
  signingKeyId : String
deriving DecidableEq, Repr

def pluginSourcePackage : String := "package"
def isolationModeSignedPackage : String := "signed_package"
def verificationStatusVerified : String := "verified"
def signatureAlgorithmEd25519 : String := "ed25519"

def pluginErrUnsignedPackage : String := "PLUGIN_UNSIGNED_PACKAGE"
def pluginErrTamperedPackage : String := "PLUGIN_TAMPERED_PACKAGE"
def pluginErrInvalidSignature : String := "PLUGIN_INVALID_SIGNATURE"
def pluginErrUntrustedSigner : String := "PLUGIN_UNTRUSTED_SIGNER"

def pluginError {α : Type} (code message : String) : Except String α :=
  .error (code ++ ": " ++ message)

/-- The functions of the standard library that the check calls. -/
structure SigningRuntime where
  /-- `sha256.Sum256`. -/
  sha256 : Bytes → Bytes
  /-- `base64.StdEncoding.DecodeString`. -/
  decodeBase64 : String → Except String Bytes
  /-- `ed25519.Verify` of a public key, a message and a signature. -/
  verify : Bytes → Bytes → Bytes → Bool
  /-- `json.Unmarshal` into a package signature. -/
  unmarshalSignature : Bytes → Except String PackageSignature

def hexDigit (n : Nat) : Char :=
  if n < 10 then Char.ofNat (48 + n) else Char.ofNat (87 + n)

/-- `hex.EncodeToString`. -/
def hexEncode (bytes : Bytes) : String :=
  String.ofList (bytes.flatMap fun b =>
    [hexDigit (b.toNat / 16), hexDigit (b.toNat % 16)])

/-- Case folding of the ASCII letters. No other character folds to a
hexadecimal digit. -/
def foldHex (c : Char) : Char :=
  if 65 ≤ c.toNat ∧ c.toNat ≤ 90 then Char.ofNat (c.toNat + 32) else c

/-- `strings.EqualFold` against hexadecimal digits. -/
def equalFoldHex (s digest : String) : Bool :=
  s.toList.map foldHex == digest.toList.map foldHex

def PackageTree.content (tree : PackageTree) (path : PackagePath) : Option Bytes :=
  (tree.files.find? fun f => f.1 == path).map Prod.snd

section

variable (rt : SigningRuntime)

/-- `computePluginDigest`. -/
def computePluginDigest (tree : PackageTree) : String :=
  hexEncode (rt.sha256 (digestInput tree))

/-- The trusted key that a signature names. -/
def signerOf (keys : TrustedKeys) (sig : PackageSignature) :
    Except String TrustedPublisherKey :=
  match keys sig.keyId with
  | none =>
    pluginError pluginErrUntrustedSigner
      ("untrusted signer key " ++ quote sig.keyId)
  | some trusted =>
    if trusted.algorithm ≠ signatureAlgorithmEd25519 then
      pluginError pluginErrUntrustedSigner "trusted key algorithm is not ed25519"
    else if trusted.publisherId ≠ sig.publisherId then
      pluginError pluginErrUntrustedSigner
        "signature publisher does not match trusted key owner"
    else .ok trusted

/-- A base64 text that must hold the given number of bytes. -/
def decodeSized (size : Nat) (code message text : String) : Except String Bytes :=
  match rt.decodeBase64 text with
  | .error _ => pluginError code message
  | .ok bytes => if bytes.length ≠ size then pluginError code message else .ok bytes

/-- `readPackageSignature` and the checks on its fields. -/
def readSignature (tree : PackageTree) : Except String PackageSignature :=
  match tree.content packageSignatureFile with
  | none => pluginError pluginErrUnsignedPackage "missing signature.json"
  | some data =>
    match rt.unmarshalSignature data with
    | .error e => pluginError pluginErrInvalidSignature ("invalid signature.json: " ++ e)
    | .ok sig =>
      if trimSpace sig.algorithm ≠ signatureAlgorithmEd25519 then
        pluginError pluginErrInvalidSignature "unsupported signature algorithm"
      else if trimSpace sig.keyId = "" ∨ trimSpace sig.publisherId = "" then
        pluginError pluginErrInvalidSignature
          "signature keyId and publisherId are required"
      else .ok sig

/-- `verifyPackageSignature`. The digest is hexadecimal, so decoding it gives
the hash again. -/
def verifyPackageSignature (tree : PackageTree) (keys : TrustedKeys) :
    Except String InstallMetadata := do
  let sig ← readSignature rt tree
  if !equalFoldHex (trimSpace sig.digest) (computePluginDigest rt tree) then
    pluginError pluginErrTamperedPackage "digest mismatch"
  else
    let trusted ← signerOf keys sig
    let publicKey ← decodeSized rt 32 pluginErrUntrustedSigner
      "trusted key is invalid" trusted.publicKey
    let signature ← decodeSized rt 64 pluginErrInvalidSignature
      "signature payload is invalid" sig.signature
    if !rt.verify publicKey (rt.sha256 (digestInput tree)) signature then
      pluginError pluginErrInvalidSignature "signature verification failed"
    else
      .ok { source := pluginSourcePackage
            isolation := isolationModeSignedPackage
            canExecute := true
            verificationStatus := verificationStatusVerified
            publisherId := trusted.publisherId
            signingKeyId := sig.keyId }

variable {rt}

theorem hexDigit_injective {m n : Nat} (hm : m < 16) (hn : n < 16)
    (h : foldHex (hexDigit m) = foldHex (hexDigit n)) : m = n := by
  have hall : ∀ m < 16, ∀ n < 16,
      foldHex (hexDigit m) = foldHex (hexDigit n) → m = n := by decide
  exact hall m hm n hn h

theorem hexEncode_fold_injective {a b : Bytes}
    (h : (hexEncode a).toList.map foldHex = (hexEncode b).toList.map foldHex) :
    a = b := by
  rw [hexEncode, hexEncode, String.toList_ofList, String.toList_ofList] at h
  induction a generalizing b with
  | nil =>
    cases b with
    | nil => rfl
    | cons y b => simp at h
  | cons x a ih =>
    cases b with
    | nil => simp at h
    | cons y b =>
      simp only [flatMap_cons, map_cons, cons_append, List.cons.injEq] at h
      obtain ⟨hhigh, hlow, htail⟩ := h
      have hx := x.toNat_lt
      have hy := y.toNat_lt
      have h₁ := hexDigit_injective (by omega) (by omega) hhigh
      have h₂ := hexDigit_injective (by omega) (by omega) hlow
      have hxy : x = y := UInt8.toNat_inj.mp (by omega)
      rw [hxy, ih htail]

/-- A package is accepted only with a signature file that states its digest. -/
theorem digest_of_verifyPackageSignature {keys : TrustedKeys} {metadata : InstallMetadata}
    (h : verifyPackageSignature rt tree keys = .ok metadata) :
    ∃ data sig, tree.content packageSignatureFile = some data ∧
      rt.unmarshalSignature data = .ok sig ∧
      equalFoldHex (trimSpace sig.digest) (computePluginDigest rt tree) = true := by
  simp only [verifyPackageSignature, bind_eq_ok] at h
  obtain ⟨sig, hsig, h⟩ := h
  have hdigest :
      equalFoldHex (trimSpace sig.digest) (computePluginDigest rt tree) = true := by
    by_contra hne
    rw [Bool.not_eq_true] at hne
    simp [hne, pluginError] at h
  unfold readSignature at hsig
  split at hsig
  next => simp [pluginError] at hsig
  next data hdata =>
    split at hsig
    next => simp [pluginError] at hsig
    next parsed hparsed =>
      simp only [pluginError] at hsig
      split_ifs at hsig
      exact ⟨data, sig, hdata, hsig ▸ hparsed, hdigest⟩

/-- One signature file accepted for two trees states the digest of both. -/
theorem sha256_eq_of_same_signature {keys keys' : TrustedKeys}
    {metadata metadata' : InstallMetadata}
    (h : verifyPackageSignature rt tree keys = .ok metadata)
    (h' : verifyPackageSignature rt tree' keys' = .ok metadata')
    (hsame : tree.content packageSignatureFile = tree'.content packageSignatureFile) :
    rt.sha256 (digestInput tree) = rt.sha256 (digestInput tree') := by
  obtain ⟨data, sig, hdata, hsig, hdigest⟩ := digest_of_verifyPackageSignature h
  obtain ⟨data', sig', hdata', hsig', hdigest'⟩ := digest_of_verifyPackageSignature h'
  have hdataEq : data = data' := by
    rw [hsame, hdata'] at hdata
    exact (Option.some.inj hdata).symm
  have hsigEq : sig = sig' := by
    rw [hdataEq, hsig'] at hsig
    exact (Except.ok.inj hsig).symm
  simp only [equalFoldHex, beq_iff_eq] at hdigest hdigest'
  apply hexEncode_fold_injective
  rw [computePluginDigest] at hdigest hdigest'
  rw [← hdigest, ← hdigest', hsigEq]

end

/-! ## What a signature covers -/

/-- Two trees that differ are hashed from different bytes, and no signature
file is accepted for both. -/
def CoversOneTree (rt : SigningRuntime) (tree tree' : PackageTree) : Prop :=
  (Differ tree tree' → digestInput tree ≠ digestInput tree') ∧
    ∀ keys keys' metadata metadata',
      verifyPackageSignature rt tree keys = .ok metadata →
      verifyPackageSignature rt tree' keys' = .ok metadata' →
      tree.content packageSignatureFile = tree'.content packageSignatureFile →
      ¬ Differ tree tree'

/-- A signature covers one tree except where two trees group the same pieces
differently. -/
theorem coversOneTree_iff
    {rt : SigningRuntime} (hsha : Function.Injective rt.sha256)
    (tree tree' : PackageTree) :
    CoversOneTree rt tree tree' ↔ ¬ Regrouped tree tree' := by
  rw [← differ_and_digestInput_eq_iff]
  constructor
  · rintro ⟨hinput, -⟩ ⟨hdiffer, heq⟩
    exact hinput hdiffer heq
  · intro hnot
    refine ⟨fun hdiffer heq => hnot ⟨hdiffer, heq⟩, ?_⟩
    intro keys keys' metadata metadata' h h' hsame hdiffer
    exact hnot ⟨hdiffer, hsha (sha256_eq_of_same_signature h h' hsame)⟩

namespace SampleSigning

def keyFile : PackagePath := ⟨"main.js", by decide⟩
def extraFile : PackagePath := ⟨"zz.js", by decide⟩

/-- A package of one file whose content holds two zero bytes. -/
def merged : PackageTree where
  files := [(packageSignatureFile, []),
    (keyFile, [120, 0] ++ bytesOf "zz.js" ++ [0, 121])]
  nodup := by decide

/-- A package of two files. -/
def separate : PackageTree where
  files := [(packageSignatureFile, []), (keyFile, [120]), (extraFile, [121])]
  nodup := by decide

/-- Another package of one file. -/
def plain : PackageTree where
  files := [(keyFile, [120])]
  nodup := by decide

def signature : PackageSignature :=
  ⟨"ed25519", "publisher", "key", hexEncode (digestInput separate), ""⟩

/-- A hash without collisions, and one signature that every key accepts. -/
def runtime : SigningRuntime where
  sha256 := id
  decodeBase64 text := .ok (List.replicate (if text = "" then 64 else 32) 0)
  verify _ _ _ := true
  unmarshalSignature _ := .ok signature

def keys : TrustedKeys := fun _ => some ⟨"publisher", "ed25519", "public"⟩

end SampleSigning

open SampleSigning

theorem coversOneTree_sample :
    CoversOneTree runtime plain
      separate := by
  have hsha : Function.Injective runtime.sha256 := fun _ _ h => h
  apply (coversOneTree_iff hsha _ _).mpr
  apply not_regrouped_of_noZero
  · decide
  · decide

/-- Two packages with different files, hashed from the same bytes and accepted
with the same signature. -/
theorem signature_accepted_for_two_trees :
    Differ merged separate ∧
      digestInput merged = digestInput separate ∧
      (verifyPackageSignature runtime merged
        keys).isOk = true ∧
      (verifyPackageSignature runtime separate
        keys).isOk = true := by
  refine ⟨⟨(extraFile, [121]), ?_⟩, ?_⟩
  · decide
  · decide +kernel

end Yanta.Plugin
