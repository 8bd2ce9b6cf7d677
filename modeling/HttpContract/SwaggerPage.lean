import HttpContract.Text.Blank

/-!
# The page that shows a document

An HTML page that loads a viewer and points it to a document. Texts are escaped for HTML before they
are put in.
-/

namespace HttpContract

/-- A character as it is written in HTML, also within an attribute. -/
def htmlCharacter (c : Char) : List Char :=
  if c = '&' then "&amp;".toList
  else if c = '<' then "&lt;".toList
  else if c = '>' then "&gt;".toList
  else if c = '"' then "&quot;".toList
  else if c = '\'' then "&#x27;".toList
  else [c]

/-- A text as it is written in HTML. -/
def htmlText (s : String) : String := String.ofList (s.toList.flatMap htmlCharacter)

/-- Where the files of the viewer are, by version and name. -/
def viewerFile (version name : String) : String :=
  "https://cdn.jsdelivr.net/npm/swagger-ui-dist@" ++ version ++ "/" ++ name

/-- The lines of the page, for texts that are escaped already. -/
def pageLines (url title version : String) : List String :=
  ["<!DOCTYPE html>",
    "<html lang=\"en\">",
    "<head>",
    "    <meta charset=\"utf-8\">",
    "    <meta name=\"viewport\" content=\"width=device-width, initial-scale=1\">",
    "    <title>" ++ title ++ "</title>",
    "    <link rel=\"stylesheet\"",
    "          href=\"" ++ viewerFile version "swagger-ui.css" ++ "\">",
    "</head>",
    "<body>",
    "    <div id=\"swagger-ui\"></div>",
    "    <script src=\"" ++ viewerFile version "swagger-ui-bundle.js" ++ "\"></script>",
    "    <script src=\"" ++ viewerFile version "swagger-ui-standalone-preset.js" ++
      "\"></script>",
    "    <script>",
    "        window.onload = function() \x7b",
    "            window.ui = SwaggerUIBundle(\x7b",
    "                url: \"" ++ url ++ "\",",
    "                dom_id: '#swagger-ui',",
    "                deepLinking: true,",
    "                presets: [",
    "                    SwaggerUIBundle.presets.apis,",
    "                    SwaggerUIStandalonePreset,",
    "                ],",
    "                layout: \"StandaloneLayout\",",
    "            \x7d);",
    "        \x7d;",
    "    </script>",
    "</body>",
    "</html>",
    ""]

/-- The page for the document that is served at a URL. -/
def swaggerPage (url title version : String) : String :=
  joinTexts "\n" (pageLines (htmlText url) (htmlText title) (htmlText version))

end HttpContract
