import Yanta.Document.Extraction
import Yanta.Go.Errors
import Yanta.Go.JoinPaths

/-!
# Images in the PDF export

`renderImage` and `resolveImagePath` of `internal/export/renderer.go`: the image files that
the renderer gives to the PDF library, which opens no other file.
-/

namespace Yanta.Document

open Go Support List

/-- `strings.Trim(url, "/")`. -/
def trimSlashes (url : String) : String :=
  String.ofList (trimRightChars (· == '/') (trimLeftChars (· == '/') url.toList))

/-- `Vault.AssetsPath`. -/
def assetsPath (root : Path) (projectAlias : String) : Path :=
  joinPath (joinPath (root ++ ["projects"]) projectAlias) "assets"

def resolveImagePath (root : Path) (url : String) : Except String Path :=
  match split (trimSlashes url) '/' with
  | first :: projectAlias :: filename :: _ =>
    if first = "assets" then .ok (joinPath (assetsPath root projectAlias) filename)
    else .error ("invalid asset URL format: " ++ url)
  | _ => .error ("invalid asset URL format: " ++ url)

/-- The address that `renderImage` reads. -/
def imageUrl (block : BlockNoteBlock) : Option String :=
  (block.props.string? "url").filter fun url => block.type == "image" && url != ""

/-- `RenderBlocks` goes through the blocks in document order, up to a table that cannot be
read. -/
def imageUrls (unreadable : BlockNoteBlock → Bool) (blocks : List BlockNoteBlock) :
    List String :=
  ((preorder blocks).takeWhile (!unreadable ·)).filterMap imageUrl

/-- The file that `renderImage` adds; `missing` are the paths where there is none. -/
def imageFile (root : Path) (missing : Path → Bool) (url : String) : Option Path :=
  branch (resolveImagePath root url) (fun _ => none) fun path =>
    if missing path then none else some path

/-- The file is in the assets directory of a directory of `projects`. -/
def InAssets (root path : Path) : Prop :=
  ∃ project, StrictlyBelow (root ++ ["projects", project, "assets"]) path

/-- The text names an entry of a directory. -/
def NamesEntry (name : String) : Prop := name ∉ ["", ".", ".."]

/-- The address has a project and a file name. -/
def NamesAsset (url : String) : Prop :=
  ∀ part ∈ ((split (trimSlashes url) '/').drop 1).take 2, NamesEntry part

theorem joinPath_name {name : String} (hslash : '/' ∉ name.toList) (dir : Path) :
    NamesEntry name ∧ joinPath dir name = dir ++ [name] ∨
      ¬ NamesEntry name ∧ (joinPath dir name = dir ∨ joinPath dir name = dir.dropLast) := by
  have hsplit : split name '/' = [name] := by
    simpa [join] using @split_join [name] '/' (by simp) (by simpa using hslash)
  rw [joinPath, hsplit, foldl_cons, joinElement, NamesEntry]
  split_ifs with hdot hup
  · exact .inr ⟨by rcases hdot with rfl | rfl <;> simp, .inl (by simp)⟩
  · exact .inr ⟨by simp [hup], .inr (by simp)⟩
  · exact .inl ⟨by simpa [hup] using hdot, by simp⟩

/-- Where the file of an address lies. -/
theorem inAssets_iff {root path : Path} {url : String}
    (h : resolveImagePath root url = .ok path) : InAssets root path ↔ NamesAsset url := by
  unfold resolveImagePath at h
  split at h
  · rename_i first projectAlias filename rest hparts
    split_ifs at h
    obtain rfl := Except.ok.inj h
    have hslash : ∀ part ∈ split (trimSlashes url) '/', '/' ∉ part.toList :=
      fun part hpart => not_mem_of_mem_split hpart
    rw [hparts] at hslash
    have hassets : ∀ dir, joinPath dir "assets" = dir ++ ["assets"] := by
      simp [joinPath, show split "assets" '/' = ["assets"] by decide, joinElement]
    have halias := joinPath_name (hslash projectAlias (by simp)) (root ++ ["projects"])
    have hfile := joinPath_name (hslash filename (by simp)) (assetsPath root projectAlias)
    simp only [InAssets, NamesAsset, strictlyBelow_iff, hparts, assetsPath, hassets] at hfile ⊢
    -- A project and a file name have their place; any other part moves the path.
    rcases halias with ⟨halias, hproject⟩ | ⟨halias, hproject | hproject⟩ <;>
      rcases hfile with ⟨hname, hpath⟩ | ⟨hname, hpath | hpath⟩ <;>
      rw [hpath, hproject] <;> simp [halias, hname]
  · cases h

/-- The images come from assets directories exactly when the addresses of the files that
exist have a project and a file name. -/
theorem exported_images_in_assets_iff (root : Path) (missing : Path → Bool)
    (unreadable : BlockNoteBlock → Bool) (blocks : List BlockNoteBlock) :
    (∀ path ∈ (imageUrls unreadable blocks).filterMap (imageFile root missing),
        InAssets root path) ↔
      ∀ url ∈ imageUrls unreadable blocks,
        (imageFile root missing url).isSome = true → NamesAsset url := by
  have hfile : ∀ url path, imageFile root missing url = some path →
      (InAssets root path ↔ NamesAsset url) := by
    intro url path h
    cases hresolved : resolveImagePath root url with
    | error e => simp [imageFile, hresolved] at h
    | ok resolved =>
      simp only [imageFile, hresolved, branch_ok, Option.ite_none_left_eq_some] at h
      exact inAssets_iff (Option.some.inj h.2 ▸ hresolved)
  constructor
  · intro h url hurl hsome
    obtain ⟨path, hpath⟩ := Option.isSome_iff_exists.mp hsome
    exact (hfile url path hpath).mp (h path (mem_filterMap.mpr ⟨url, hurl, hpath⟩))
  · intro h path hin
    obtain ⟨url, hurl, hpath⟩ := mem_filterMap.mp hin
    exact (hfile url path hpath).mpr (h url hurl (by simp [hpath]))

/-- The address of an image names the parent directory in place of the project. -/
theorem exported_image_outside_assets :
    (imageUrls (fun _ => false) [.mk "1" "image" [("url", .str "/assets/../a.png")] none []]
        ).filterMap (imageFile ["vault"] fun _ => false) = [["vault", "assets", "a.png"]] ∧
      ¬ InAssets ["vault"] ["vault", "assets", "a.png"] := by
  refine ⟨by decide +kernel, ?_⟩
  rintro ⟨project, hbelow⟩
  simp [StrictlyBelow] at hbelow

end Yanta.Document
