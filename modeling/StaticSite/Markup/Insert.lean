import StaticSite.Text.Search

/-!
# Inserting tags

Tags go right before the first `</head>` or the last `</body>` of a page. A page without such a tag
stays as it is.
-/

namespace StaticSite.Markup

/-- The tag that ends the head. -/
def headEnd : List Char := "</head>".toList

/-- The tag that ends the body. -/
def bodyEnd : List Char := "</body>".toList

/-- Inserts tags before the end of the head. -/
def insertInHead (tags page : List Char) : List Char :=
  Text.replaceFirst headEnd (tags ++ headEnd) page

/-- Inserts tags before the end of the body, if the page has one. -/
def insertInBody? (tags page : List Char) : Option (List Char) :=
  (Text.cutLast? bodyEnd page).map fun (before, after) => before ++ tags ++ bodyEnd ++ after

end StaticSite.Markup
