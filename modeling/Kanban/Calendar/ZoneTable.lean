import Kanban.Calendar.Zone

/-!
# A table of time zones

The history of the clocks of some zones, with seconds of UTC counted from 1970-01-01, and the
look-up in this table (`Zone.tabulated?`), one of those that filters can be read with.  Zones
`Etc/GMT±n` are fixed; their sign is that of the way back to UTC.
-/

namespace Kanban.Zone

/-- The clock of `Europe/Berlin`. -/
def berlin : Zone where
  name := "Europe/Berlin"
  localMean := 3208
  history := [
    .once (-2422054408) 3600, .once (-1693706400) 7200, .once (-1680483600) 3600,
    .once (-1663455600) 7200, .once (-1650150000) 3600, .once (-1632006000) 7200,
    .once (-1618700400) 3600, .once (-938905200) 7200, .once (-857257200) 3600,
    .once (-844556400) 7200, .once (-828226800) 3600, .once (-812502000) 7200,
    .once (-796777200) 3600, .once (-781052400) 7200, .once (-776563200) 10800,
    .once (-765936000) 7200, .once (-761180400) 3600, .once (-748479600) 7200,
    .once (-733273200) 3600, .once (-717631200) 7200, .once (-714610800) 10800,
    .once (-710380800) 7200, .once (-701910000) 3600, .once (-684975600) 7200,
    .once (-670460400) 3600, .once (-654130800) 7200, .once (-639010800) 3600,
    .once 323830800 7200, .once 338950800 3600,
    .yearly 1981 1995 [⟨3, .last, 3600, 7200⟩, ⟨9, .last, 3600, 3600⟩],
    .yearly 1996 horizon [⟨3, .last, 3600, 7200⟩, ⟨10, .last, 3600, 3600⟩]]

/-- The clock of `America/New_York`. -/
def newYork : Zone where
  name := "America/New_York"
  localMean := -17762
  history := [
    .once (-2717650800) (-18000),
    .yearly 1918 1920 [⟨3, .last, 25200, -14400⟩, ⟨10, .last, 21600, -18000⟩],
    .yearly 1921 1941 [⟨4, .last, 25200, -14400⟩, ⟨9, .last, 21600, -18000⟩],
    .once (-880218000) (-14400), .once (-765396000) (-18000),
    .yearly 1946 1954 [⟨4, .last, 25200, -14400⟩, ⟨9, .last, 21600, -18000⟩],
    .yearly 1955 1973 [⟨4, .last, 25200, -14400⟩, ⟨10, .last, 21600, -18000⟩],
    .once 126687600 (-14400), .once 152085600 (-18000), .once 162370800 (-14400),
    .once 183535200 (-18000),
    .yearly 1976 1986 [⟨4, .last, 25200, -14400⟩, ⟨10, .last, 21600, -18000⟩],
    .yearly 1987 2006 [⟨4, .nth 1, 25200, -14400⟩, ⟨10, .last, 21600, -18000⟩],
    .yearly 2007 horizon [⟨3, .nth 2, 25200, -14400⟩, ⟨11, .nth 1, 21600, -18000⟩]]

/-- The clock of `America/St_Johns`. -/
def stJohns : Zone where
  name := "America/St_Johns"
  localMean := -12652
  history := [
    .once (-1664130548) (-9052), .once (-1650137348) (-12652), .once (-1632076148) (-9052),
    .once (-1615145348) (-12652), .once (-1598650148) (-9052), .once (-1590100148) (-12652),
    .yearly 1920 1934 [⟨5, .nth 1, 95452, -9052⟩, ⟨10, .last, 91852, -12652⟩],
    .once (-1096921748) (-12600), .once (-1093728600) (-9000), .once (-1078612200) (-12600),
    .once (-1061670600) (-9000), .once (-1048973400) (-12600), .once (-1030221000) (-9000),
    .once (-1017523800) (-12600), .once (-998771400) (-9000), .once (-986074200) (-12600),
    .once (-966717000) (-9000), .once (-954624600) (-12600), .once (-935267400) (-9000),
    .once (-922570200) (-12600), .once (-903817800) (-9000), .once (-891120600) (-12600),
    .once (-872368200) (-9000), .once (-765401400) (-12600),
    .yearly 1946 1949 [⟨5, .nth 2, 19800, -9000⟩, ⟨10, .nth 1, 16200, -12600⟩],
    .once (-619641000) (-9000), .once (-606943800) (-12600),
    .yearly 1951 1959 [⟨4, .last, 19800, -9000⟩, ⟨9, .last, 16200, -12600⟩],
    .yearly 1960 1986 [⟨4, .last, 19800, -9000⟩, ⟨10, .last, 16200, -12600⟩],
    .once 544591860 (-9000), .once 562127460 (-12600), .once 576041460 (-5400),
    .once 594178260 (-12600),
    .yearly 1989 2006 [⟨4, .nth 1, 12660, -9000⟩, ⟨10, .last, 9060, -12600⟩],
    .yearly 2007 2010 [⟨3, .nth 2, 12660, -9000⟩, ⟨11, .nth 1, 9060, -12600⟩],
    .once 1299987060 (-9000), .once 1320553800 (-12600),
    .yearly 2012 horizon [⟨3, .nth 2, 19800, -9000⟩, ⟨11, .nth 1, 16200, -12600⟩]]

/-- The clock of `Asia/Kathmandu`. -/
def kathmandu : Zone where
  name := "Asia/Kathmandu"
  localMean := 20476
  history := [
    .once (-1577943676) 19800, .once 504901800 20700]

/-- The clock of `Asia/Kolkata`. -/
def kolkata : Zone where
  name := "Asia/Kolkata"
  localMean := 21208
  history := [
    .once (-3645237208) 21200, .once (-3155694800) 19270, .once (-2019705670) 19800,
    .once (-891581400) 23400, .once (-872058600) 19800, .once (-862637400) 23400,
    .once (-764145000) 19800]

/-- The clock of `Asia/Tokyo`. -/
def tokyo : Zone where
  name := "Asia/Tokyo"
  localMean := 33539
  history := [
    .once (-2587712400) 32400, .once (-683802000) 36000, .once (-672310800) 32400,
    .once (-654771600) 36000, .once (-640861200) 32400, .once (-620298000) 36000,
    .once (-609411600) 32400, .once (-588848400) 36000, .once (-577962000) 32400]

/-- The clock of `Australia/Lord_Howe`. -/
def lordHowe : Zone where
  name := "Australia/Lord_Howe"
  localMean := 38180
  history := [
    .once (-2364114980) 36000, .once 352216800 37800, .once 372785400 41400,
    .yearly 1982 1984 [⟨3, .nth 1, -34200, 37800⟩, ⟨10, .last, -30600, 41400⟩],
    .once 478621800 37800, .once 499188600 39600, .once 511282800 37800, .once 530033400 39600,
    .yearly 1987 1989 [⟨3, .nth 3, -32400, 37800⟩, ⟨10, .last, -30600, 39600⟩],
    .yearly 1990 1995 [⟨3, .nth 1, -32400, 37800⟩, ⟨10, .last, -30600, 39600⟩],
    .yearly 1996 1999 [⟨3, .last, -32400, 37800⟩, ⟨10, .last, -30600, 39600⟩],
    .once 953996400 37800, .once 967303800 39600,
    .yearly 2001 2005 [⟨3, .last, -32400, 37800⟩, ⟨10, .last, -30600, 39600⟩],
    .once 1143903600 37800, .once 1162049400 39600, .once 1174748400 37800, .once 1193499000 39600,
    .yearly 2008 horizon [⟨4, .nth 1, -32400, 37800⟩, ⟨10, .nth 1, -30600, 39600⟩]]

/-- The clock of `Pacific/Apia`. -/
def apia : Zone where
  name := "Pacific/Apia"
  localMean := 45184
  history := [
    .once (-2445424384) (-41216), .once (-1861878784) (-41400), .once (-631110600) (-39600),
    .once 1285498800 (-36000), .once 1301752800 (-39600), .once 1316872800 (-36000),
    .once 1325239200 50400,
    .yearly 2012 2020 [⟨4, .nth 1, -36000, 46800⟩, ⟨9, .last, -36000, 50400⟩],
    .once 1617458400 46800]

/-- The zones with a history of their own. -/
def known : List Zone :=
  [berlin, newYork, stJohns, kathmandu, kolkata, tokyo, lordHowe, apia]

/-- Other names of universal time. -/
def utcNames : List String :=
  ["UTC", "UCT", "GMT", "GMT0", "GMT+0", "GMT-0", "Greenwich", "Universal", "Zulu", "Etc/UTC",
    "Etc/UCT", "Etc/GMT", "Etc/GMT0", "Etc/GMT+0", "Etc/GMT-0", "Etc/Greenwich", "Etc/Universal",
    "Etc/Zulu"]

/-- The hours by which the clocks of `Etc/GMT±n` are ahead of UTC. -/
def fixedHours : List Int := (List.range 14).map (fun n : Nat => (n : Int) + 1) ++
  (List.range 12).map (fun n : Nat => -((n : Int) + 1))

/-- The name of the zone that is ahead of UTC by a number of hours. -/
def fixedName (hours : Int) : String :=
  if 0 < hours then "Etc/GMT-" ++ toString hours.natAbs else "Etc/GMT+" ++ toString hours.natAbs

/-- The zones of the table. -/
def table : List Zone :=
  utcNames.map (fixed · 0) ++ known ++
    fixedHours.map fun h => fixed (fixedName h) (h * 3600)

/-- The zone of the table with a name. -/
def tabulated? (name : String) : Option Zone := table.find? (·.name == name)

end Kanban.Zone
