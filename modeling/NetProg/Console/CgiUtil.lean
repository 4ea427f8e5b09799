import NetProg.Lib.Text

/-!
# The scripts of `cgi_server`

`cgi_util.cpp`: the strings that append shell output or a command to the page.
-/

namespace NetProg.CGI

/-- `boost::replace_all` for a pattern of one character. -/
def replaceAll (c : Char) (new : Text) (context : Text) : Text :=
  context.flatMap fun d => if d = c then new else [d]

/-- `cgi_html_escape` (`np_project3/cgiserver/cgi_util.cpp:106-115`). -/
def cgiHtmlEscape (context : Text) : Text :=
  let context := replaceAll '&' "&amp;".toList context
  let context := replaceAll '>' "&gt;".toList context
  let context := replaceAll '<' "&lt;".toList context
  let context := replaceAll '"' "&quot;".toList context
  let context := replaceAll '\'' "&apos;".toList context
  let context := replaceAll '\n' "&NewLine;".toList context
  replaceAll '\r' [] context

/-- `cgi_output_shell` (`np_project3/cgiserver/cgi_util.cpp:96-99`). -/
def cgiOutputShell (content : Text) (sessionId : Int) : Text :=
  "<script>document.getElementById('s".toList ++ Text.decimal sessionId ++
    "').innerHTML += '".toList ++ cgiHtmlEscape content ++ "';</script>".toList

/-- `cgi_output_command` (`np_project3/cgiserver/cgi_util.cpp:101-104`). -/
def cgiOutputCommand (content : Text) (sessionId : Int) : Text :=
  "<script>document.getElementById('s".toList ++ Text.decimal sessionId ++
    "').innerHTML += '<b>".toList ++ cgiHtmlEscape content ++ "</b>';</script>".toList

end NetProg.CGI
