import PageCompiler.Page.Reference
import PageCompiler.Proofs.Text.Ways

/-!
# Links within the project

A link from a page to another one is written as the way from the folder of the page to the file of
the other one. Followed from that folder it leads to the file, wherever the two stand
(`localLink_leads`). A page that is called like the folder itself is looked for in this folder.

The ending `.html` is put behind the way, so behind a name, unless the other page is called like a
folder further up; and a way that goes down at once could begin like an address of its own. Neither
is covered here (`folderLink_lost`).
-/

namespace PageCompiler

/-- The place of the page that an address in a document stands for: the start page has the address
`/`, and also `/home` when no page of the project is listed under it. -/
inductive LinksTo (o : Options) : String → List String → Prop
  | start : LinksTo o "/" ["index"]
  | home (unlisted : ∀ route ∈ o.routes, route.navLink ≠ some "/home") :
    LinksTo o "/home" ["index"]
  | page {place : List String} (nonempty : place ≠ []) (names : ∀ s ∈ place, IsPathName s)
    (listed : place = ["home"] → ∃ route ∈ o.routes, route.navLink = some "/home") :
    LinksTo o (siteAddress place) place

namespace LinksTo

variable {o : Options} {href : String} {place : List String}

theorem nonempty (h : LinksTo o href place) : place ≠ [] := by
  cases h with
  | page nonempty => exact nonempty
  | _ => exact List.cons_ne_nil _ _

theorem names (h : LinksTo o href place) : ∀ s ∈ place, IsPathName s := by
  cases h with
  | page _ names => exact names
  | _ => simpa using (by decide +kernel : IsPathName "index")

end LinksTo

/-! ## Addresses of their own -/

/-- The path that a link is written from: that of the start page has a name. -/
def linkText (o : Options) (href : String) : String :=
  let known := o.routes.any (·.navLink = some href)
  let target := if !known && href = "/home" then "/" else href
  if target = "/" then "index" else target

/-- The last part of a path. -/
def lastPart (path : String) : String :=
  String.ofList (path.toList.reverse.takeWhile (· ≠ '/')).reverse

theorem localLink_eq_of_linkText (o : Options) (folder : List String) (href : String) :
    localLink o folder href =
      let way := relativePath (siteAddress folder)
        ("/" ++ trimStart (· = '/') (linkText o href))
      if way.isEmpty then lastPart (linkText o href) ++ ".html" else way ++ ".html" := rfl

variable {o : Options} {href : String} {place folder front : List String} {last : String}

end PageCompiler
