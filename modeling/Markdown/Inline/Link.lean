import Markdown.Html.Escape
import Markdown.References
import Markdown.Text.Replace

/-!
# Links and images

Links and images with an address, references to defined targets, footnote references, and
addresses in angle brackets. A reference whose identifier is not defined stays as it is written.
-/

namespace Markdown.Inline

/-- The text up to the next closing bracket and what follows the bracket. -/
def bracketed? (t : Text) : Option (Text × Text) :=
  Text.cutAt? ']' t

/-- What follows a quote mark, plain or written for HTML. -/
def afterQuote? (t : Text) : Option Text :=
  match Text.after? "&quot;".toList t with
  | some r => some r
  | none => Text.after? ['"'] t

/-- What follows a quote mark and a closing parenthesis. -/
def afterTitle? (t : Text) : Option Text :=
  match afterQuote? t with
  | some (')' :: r) => some r
  | _ => none

/-- The shortest title on the line that a quote mark and a parenthesis close, and what follows. -/
def titleBody? : Text → Option (Text × Text)
  | [] => none
  | c :: r =>
    match afterTitle? (c :: r) with
    | some rest => some ([], rest)
    | none => if c = '\n' then none else (titleBody? r).map fun p => (c :: p.1, p.2)

/-- A target in parentheses, whose opening one has been read. -/
structure Target where
  /-- The address. -/
  url : Text
  /-- The title, if one is written. -/
  title : Option Text
  /-- What follows the closing parenthesis. -/
  rest : Text

/-- The target at the start of a text. -/
def target? (t : Text) : Option Target :=
  let url := t.takeWhile fun c => c ≠ ')' && !Text.isBlank c
  if url.isEmpty then none
  else
    match t.drop url.length with
    | ')' :: rest => some ⟨url, none, rest⟩
    | c :: r =>
      if Text.isBlank c then
        match afterQuote? (Text.trimStart r) with
        | none => none
        | some body => (titleBody? body).map fun p => ⟨url, some p.1, p.2⟩
      else none
    | [] => none

/-- The attribute of a title; an empty title has none. -/
def titleAttribute (title : Option Text) : Text :=
  match title with
  | some t => if t.isEmpty then [] else " title=\"".toList ++ t ++ ['"']
  | none => []

/-- An anchor. -/
def anchor (url : Text) (title : Option Text) (content : Text) : Text :=
  "<a href=\"".toList ++ url ++ '"' :: titleAttribute title ++ '>' :: content ++ "</a>".toList

/-- An image. -/
def image (source alt : Text) (title : Option Text) : Text :=
  "<img src=\"".toList ++ source ++ "\" alt=\"".toList ++ alt ++ '"' :: titleAttribute title ++
    " />".toList

/-- The hit whose match reaches up to `rest` in the text `r` behind the current character. -/
def hitUpTo (r rest replacement : Text) : Text.Hit :=
  ⟨r.length - rest.length, replacement⟩

/-- `![alt](source "title")`. -/
def imageRule : Text.Rule := fun _ c r =>
  match c, r with
  | '!', '[' :: body =>
    match bracketed? body with
    | some (alt, '(' :: rest) =>
      (target? rest).map fun t => hitUpTo r t.rest (image t.url alt t.title)
    | _ => none
  | _, _ => none

/-- `[text](url "title")`. -/
def linkRule : Text.Rule := fun _ c r =>
  if c = '[' then
    match bracketed? r with
    | some (label, '(' :: rest) =>
      if label.isEmpty then none
      else (target? rest).map fun t => hitUpTo r t.rest (anchor t.url t.title label)
    | _ => none
  else none

/-- The text with its images and links. -/
def imagesAndLinks (t : Text) : Text :=
  Text.replaceBy linkRule (Text.replaceBy imageRule t)

/-- The anchor of a reference; address and title are written for HTML when sanitizing. -/
def referenceAnchor (sanitize : Bool) (label : Text) (t : LinkTarget) : Text :=
  if sanitize then anchor (Html.escape t.url) (t.title.map Html.escape) label
  else anchor t.url t.title label

/-- The replacement for a reference that was written as `written`. -/
def resolve (s : References) (sanitize : Bool) (id label written : Text) : Text :=
  match s.link? id with
  | some t => referenceAnchor sanitize label t
  | none => written

/-- `[text][id]` and `[text][]`. -/
def fullReferenceRule (s : References) (sanitize : Bool) : Text.Rule := fun _ c r =>
  if c = '[' then
    match bracketed? r with
    | some (label, '[' :: rest) =>
      if label.isEmpty then none
      else
        (bracketed? rest).map fun (id, rest) =>
          let written := c :: r.take (r.length - rest.length)
          hitUpTo r rest (resolve s sanitize (if id.isEmpty then label else id) label written)
    | _ => none
  else none

/-- `[id]`, not behind a closing bracket and not in front of `[`, `(` or `:`. -/
def shortcutRule (s : References) (sanitize : Bool) : Text.Rule := fun before c r =>
  if c = '[' && before ≠ some ']' then
    match bracketed? r with
    | some (label, rest) =>
      match label with
      | [] => none
      | d :: _ =>
        let follows := match rest with
          | e :: _ => e = '[' || e = '(' || e = ':'
          | [] => false
        if d = '^' || follows then none
        else some (hitUpTo r rest (resolve s sanitize label label (c :: label ++ [']'])))
    | none => none
  else none

/-- The text with its references. -/
def references (s : References) (sanitize : Bool) (t : Text) : Text :=
  Text.replaceBy (shortcutRule s sanitize) (Text.replaceBy (fullReferenceRule s sanitize) t)

/-- What follows an opening angle bracket, plain or written for HTML. -/
def afterOpen? (t : Text) : Option Text :=
  match Text.after? "&lt;".toList t with
  | some r => some r
  | none => Text.after? ['<'] t

/-- What follows a closing angle bracket, plain or written for HTML. -/
def afterClose? (t : Text) : Option Text :=
  match Text.after? "&gt;".toList t with
  | some r => some r
  | none => Text.after? ['>'] t

/-- The schemes of addresses that become links on their own. -/
def schemes : List Text :=
  ["http://".toList, "https://".toList, "ftp://".toList]

/-- A character of such an address. -/
def isAddressChar (c : Char) : Bool :=
  !Text.isBlank c && c ≠ '<' && c ≠ '>'

/-- `<https://example.com>`. -/
def urlRule : Text.Rule := fun _ c r =>
  match afterOpen? (c :: r) with
  | none => none
  | some t =>
    match schemes.findSome? fun s => (Text.after? s t).map fun rest => (s, rest) with
    | none => none
    | some (scheme, body) =>
      match Text.shortest? isAddressChar (fun t => (afterClose? t).isSome) body with
      | none => none
      | some n =>
        let url := scheme ++ body.take n
        (afterClose? (body.drop n)).map fun rest => hitUpTo r rest (anchor url none url)

/-- A character of a mail address. -/
def isMailChar (c : Char) : Bool :=
  !Text.isBlank c && c ≠ '@' && c ≠ '<' && c ≠ '>' && c ≠ '&' && c ≠ ';'

/-- Whether a point stands inside a domain. -/
def hasInnerPoint (domain : Text) : Bool :=
  '.' ∈ (domain.drop 1).dropLast

/-- `<user@example.com>`. -/
def mailRule : Text.Rule := fun _ c r =>
  match afterOpen? (c :: r) with
  | none => none
  | some t =>
    let user := t.takeWhile isMailChar
    match t.drop user.length with
    | '@' :: rest =>
      let domain := rest.takeWhile isMailChar
      if user.isEmpty || !hasInnerPoint domain then none
      else
        let address := user ++ '@' :: domain
        (afterClose? (rest.drop domain.length)).map fun rest =>
          hitUpTo r rest (anchor ("mailto:".toList ++ address) none address)
    | _ => none

/-- The text with the addresses in angle brackets as links. -/
def autolinks (t : Text) : Text :=
  Text.replaceBy mailRule (Text.replaceBy urlRule t)

/-- The anchor of a footnote reference. -/
def footnoteAnchor (id : Text) (index : Nat) : Text :=
  "<a href=\"#fn-".toList ++ id ++ "\" id=\"fnref-".toList ++ id ++
    "\" class=\"footnote-ref\">[".toList ++ Text.ofNat index ++ "]</a>".toList

/-- `[^id]`. -/
def footnoteRule (s : References) : Text.Rule := fun _ c r =>
  match c, r with
  | '[', '^' :: body =>
    match bracketed? body with
    | some (id, rest) =>
      if id.isEmpty then none
      else
        match s.footnote? id with
        | some f => some (hitUpTo r rest (footnoteAnchor id f.index))
        | none => some (hitUpTo r rest (c :: '^' :: id ++ [']']))
    | none => none
  | _, _ => none

/-- The text with its footnote references. -/
def footnotes (s : References) (t : Text) : Text :=
  Text.replaceBy (footnoteRule s) t

end Markdown.Inline
