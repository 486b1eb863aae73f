import RequestTrail.Text

/-!
# Method sites

A site names a method by its class, name and descriptor. Class names are kept as an index reports
them, in the bytecode spelling `Lcom/app/Main;` or in the dotted spelling `com.app.Main`; tests on
the class see through the difference by way of `Site.dottedClass`.
-/

namespace RequestTrail

/-- A method of the analysed application or of the platform. -/
structure Site where
  className : String
  name : String
  descriptor : String := ""
deriving DecidableEq, Repr

namespace Site

/-- The site as `class->name(descriptor)` text. -/
def display (site : Site) : String :=
  site.className ++ "->" ++ site.name ++ site.descriptor

/-- The dotted spelling of a class name: what stands between `L` and a final `;`, with dots for
slashes. A name in any other form is taken as it is. -/
def dotted : List Char → List Char
  | 'L' :: rest =>
    if rest.getLast? = some ';' then rest.dropLast.map fun c => if c = '/' then '.' else c
    else 'L' :: rest
  | raw => raw

/-- The dotted spelling of the site's class. -/
def dottedClass (site : Site) : String :=
  String.ofList (dotted site.className.toList)

/-- Whether the dotted class begins with one of the prefixes; an empty prefix counts for nothing. -/
def hasClassPrefix (site : Site) (prefixes : List String) : Bool :=
  (prefixes.filter fun p => !p.isEmpty).any fun p => Text.startsWith site.dottedClass p

/-- Whether the component's name is part of the class name, in either spelling. -/
def inComponent (site : Site) (component : String) : Bool :=
  Text.contains site.className component || Text.contains site.dottedClass component

/-- A text without the `;` that may end it. -/
def withoutTerminator (text : List Char) : List Char :=
  if text.getLast? = some ';' then text.dropLast else text

/-- The outermost class: everything before the first separator, without a final `;`. -/
def baseClass (site : Site) (separator : Char) : String :=
  String.ofList (withoutTerminator (site.className.toList.takeWhile (· != separator)))

/-- Sites are ordered by class, then name, then descriptor, each by code points. -/
instance : Ord Site where
  compare a b :=
    (compare a.className b.className).then
      ((compare a.name b.name).then (compare a.descriptor b.descriptor))

end Site

end RequestTrail
