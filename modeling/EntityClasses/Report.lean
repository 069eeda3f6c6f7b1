/-! Reports, line by line. Warnings go to the error stream and all else to the standard stream. -/

namespace EntityClasses

inductive ReportLine where
  | keyValue (key value : String)
  | listItem (text : String)
  | addedItem (text : String)
  | warning (text : String)
  | divider (label : String)
  | preformatted (text : String)
  | newline
deriving DecidableEq, Repr

namespace ReportLine

def isWarning : ReportLine → Bool
  | warning _ => true
  | _ => false

/-- The text of a line with the newline behind it. -/
def text : ReportLine → String
  | keyValue key value => key ++ ": " ++ value ++ "\n"
  | listItem text => "  - " ++ text ++ "\n"
  | addedItem text => "  + " ++ text ++ "\n"
  | warning text => "warning: " ++ text ++ "\n"
  | divider label => "── " ++ label ++ " ──\n"
  | preformatted text => text ++ "\n"
  | newline => "\n"

end ReportLine

namespace Report

def standardText (lines : List ReportLine) : String :=
  String.join ((lines.filter (!·.isWarning)).map ReportLine.text)

def errorText (lines : List ReportLine) : String :=
  String.join ((lines.filter ReportLine.isWarning).map ReportLine.text)

end Report

end EntityClasses
