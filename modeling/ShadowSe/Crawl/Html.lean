import ShadowSe.Text.Bytes

/-! The HTML extraction of the crawler: title, description, visible text and links.
Loops that scan forward carry the number of turns still allowed; every turn advances
the position, so the length of the page is enough. -/

namespace ShadowSe

/-- Case-insensitive substring search. -/
def ciFind (hay needle : Bytes) (pos : Nat) : Option Nat :=
  if needle = [] ∨ hay.length ≤ pos then none
  else Bytes.scan (fun suffix => lowerAscii (suffix.take needle.length) == lowerAscii needle)
    (hay.drop pos) pos

/-- Reads a quoted attribute value starting at `valueStart` (after '='). -/
def readAttributeValue (html : Bytes) (valueStart : Nat) : Bytes :=
  match html[valueStart]? with
  | none => []
  | some q =>
    match html.findFirstOf [q] (valueStart + 1) with
    | none => []
    | some stop => html.substr (valueStart + 1) (some (stop - valueStart - 1))

/-- The loop of `collapseWhitespace`: the pending space is written before the next
character that is not one. -/
def collapseLoop : Bytes → Bool → Bytes → Bytes
  | [], _, out => out
  | c :: rest, inSpace, out =>
    if isspace c then collapseLoop rest true out
    else collapseLoop rest false ((if inSpace && !out.isEmpty then out ++ [32] else out) ++ [c])

def collapseWhitespace (s : Bytes) : Bytes :=
  collapseLoop s false []

def htmlExtractTitle (html : Bytes) : Bytes :=
  match ciFind html (ascii "<title") 0 with
  | none => []
  | some tag =>
    match html.findFirstOf (ascii ">") tag with
    | none => []
    | some start =>
      match ciFind html (ascii "</title>") (start + 1) with
      | none => []
      | some close =>
        trimWs (collapseWhitespace (html.substr (start + 1) (some (close - start - 1))))

/-- The three spellings that mark a description. -/
def descriptionNames : List Bytes :=
  [ascii "name=\"description\"", ascii "name='description'", ascii "name=\"DESCRIPTION\""]

def descriptionLoop (html : Bytes) : Nat → Nat → Bytes
  | 0, _ => []
  | fuel + 1, pos =>
    match ciFind html (ascii "<meta") pos with
    | none => []
    | some pos =>
      match html.findFirstOf (ascii ">") pos with
      | none => []
      | some start =>
        let tag := html.substr pos (some (start - pos))
        if descriptionNames.any fun name => (ciFind tag name 0).isSome then
          match ciFind tag (ascii "content=") 0 with
          | some eq => collapseWhitespace (readAttributeValue tag (eq + 8))
          | none => descriptionLoop html fuel (start + 1)
        else descriptionLoop html fuel (start + 1)

def htmlExtractDescription (html : Bytes) : Bytes :=
  descriptionLoop html html.length 0

/-- Tags whose inner content is dropped from the extracted text. -/
def isRemoveBlock (lower : Bytes) : Bool :=
  [ascii "script", ascii "style", ascii "noscript", ascii "template", ascii "svg", ascii "head",
    ascii "nav", ascii "footer", ascii "header", ascii "aside"].contains lower

/-- `appendText`: never leave a space before punctuation. -/
def appendText (out : Bytes) (c : UInt8) : Bytes :=
  (if out.getLast? = some 32 ∧ ispunct c = true then out.dropLast else out) ++ [c]

def separator (out : Bytes) : Bytes :=
  if out ≠ [] ∧ out.getLast? ≠ some 32 then out ++ [32] else out

/-- The position of the close tag of a removed block, from `searchFrom` on. -/
def findClose (html close : Bytes) (searchFrom : Nat) : Option Nat :=
  Bytes.scan (fun suffix => lowerAscii (suffix.take close.length) == close &&
    match suffix.drop close.length with
    | [] => true
    | ac :: _ => List.elem ac (ascii " >/\t\n")) (html.drop searchFrom) searchFrom

/-- The tag name after '<' or '</', in lower case. -/
def tagName (html : Bytes) (i tagEnd : Nat) : Bytes :=
  let nameStart := if html[i + 1]? = some 47 then i + 2 else i + 1
  lowerAscii (((html.drop nameStart).take (tagEnd - nameStart)).takeWhile
    fun c => !List.elem c (ascii " \t\n/"))

def stripLoop (html : Bytes) : Nat → Nat → Bytes → Bytes
  | 0, _, out => out
  | fuel + 1, i, out =>
    match html[i]? with
    | none => out
    | some c =>
      if c ≠ 60 then stripLoop html fuel (i + 1) (appendText out c)
      else if (html.drop i).take 4 = ascii "<!--" then
        match html.find (ascii "-->") (i + 4) with
        | none => out
        | some stop => stripLoop html fuel (stop + 3) out
      else
        let gt := html.findFirstOf (ascii ">") i
        let tagEnd := gt.getD html.length
        let name := tagName html i tagEnd
        let selfClosing := gt.any fun gt => html[gt - 1]? == some 47
        -- Where the scan goes on after a '>', at the end of the page without one.
        let past := fun stop : Option Nat => (stop.map (· + 1)).getD html.length
        if name ≠ [] ∧ isRemoveBlock name = true ∧ selfClosing = false then
          let close := ascii "</" ++ name
          match findClose html close (past gt) with
          | none => out
          | some closePos =>
            stripLoop html fuel (past (html.findFirstOf (ascii ">") (closePos + close.length)))
              (separator out)
        else stripLoop html fuel (past gt) (separator out)

def htmlStripTags (html : Bytes) : Bytes :=
  collapseWhitespace (stripLoop html html.length 0 [])

/-- One link against its base; empty when it is not a crawlable document. -/
def resolveLink (scheme host dir raw : Bytes) : Bytes :=
  match raw with
  | [] => []
  | first :: _ =>
    if raw.startsWith (ascii "http://") || raw.startsWith (ascii "https://") then raw
    else if raw.startsWith (ascii "//") then scheme ++ ascii ":" ++ raw
    else if raw.contains (ascii ":") then []
    else if first = 47 then scheme ++ ascii "://" ++ host ++ raw
    else scheme ++ ascii "://" ++ host ++ dir ++ raw

def linkLoop (html scheme host dir : Bytes) : Nat → Nat → List Bytes
  | 0, _ => []
  | fuel + 1, pos =>
    match ciFind html (ascii "<a ") pos with
    | none => []
    | some pos =>
      match html.findFirstOf (ascii ">") pos with
      | none => []
      | some stop =>
        let tag := html.substr pos (some (stop - pos))
        let rest := linkLoop html scheme host dir fuel (stop + 1)
        match ciFind tag (ascii "href=") 0 with
        | none => rest
        | some href =>
          let resolved := resolveLink scheme host dir (readAttributeValue tag (href + 5))
          if resolved = [] then rest else resolved :: rest

/-- The base URL split into scheme, host and path; empty parts without a scheme. -/
def splitBase (baseUrl : Bytes) : Bytes × Bytes × Bytes :=
  match baseUrl.find (ascii "://") 0 with
  | none => ([], [], [])
  | some schemeEnd =>
    let hostStart := schemeEnd + 3
    match baseUrl.findFirstOf (ascii "/") hostStart with
    | none => (baseUrl.take schemeEnd, baseUrl.substr hostStart none, ascii "/")
    | some slash => (baseUrl.take schemeEnd, baseUrl.substr hostStart (some (slash - hostStart)),
        baseUrl.substr slash none)

def htmlExtractLinks (html baseUrl : Bytes) : List Bytes :=
  let (scheme, host, path) := splitBase baseUrl
  if scheme ≠ ascii "http" ∧ scheme ≠ ascii "https" then []
  else
    let dir := match path.rfind 47 with
      | none => ascii "/"
      | some lastSlash => path.take (lastSlash + 1)
    linkLoop html scheme host dir html.length 0

example : htmlExtractLinks (ascii "<p><a class=x href=\"b\">B</a><A HREF='//c.d'>")
    (ascii "http://h/a/i?q") = [ascii "http://h/a/b", ascii "http://c.d"] := by decide

end ShadowSe
