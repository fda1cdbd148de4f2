import MsysGit.Library.Transition
import MsysGit.Library.Buffer
import MsysGit.Library.ChunkedStream
import MsysGit.Library.CString
import MsysGit.Library.Lines
import MsysGit.Library.Program
import MsysGit.Library.Agreement
import MsysGit.Library.Rfc1928
import MsysGit.Library.SeparatedText
import MsysGit.Library.SessionLog
import MsysGit.Library.Socks4
import MsysGit.Library.CommitGraph
import MsysGit.Library.FileTree
import MsysGit.Library.RepeatedSearch
import MsysGit.Library.Trim
import MsysGit.Library.FirstMatch
import MsysGit.Library.Folder
import MsysGit.Library.Base64
import MsysGit.Library.Below
import MsysGit.Library.KeyTree
import MsysGit.Library.CQuoting
import MsysGit.Library.ShellText
import MsysGit.Library.Replacement
import MsysGit.Library.CountingSearch
import MsysGit.Library.SuffixRemoval
import MsysGit.Library.Volume
import MsysGit.Library.ShellQuoting
import MsysGit.Connect.Globals
import MsysGit.Connect.Strings
import MsysGit.Connect.Socket
import MsysGit.Connect.Socks5
import MsysGit.Connect.Socks5Dialogue
import MsysGit.Connect.Socks5Reply
import MsysGit.Connect.Socks4
import MsysGit.Connect.HttpRelay
import MsysGit.Connect.HttpHeader
import MsysGit.Connect.HttpAnswer
import MsysGit.Connect.HttpResponse
import MsysGit.Connect.Repeater
import MsysGit.Connect.RepeaterClosing
import MsysGit.Connect.Direct
import MsysGit.Connect.DirectList
import MsysGit.Connect.ParameterFile
import MsysGit.Connect.Retry
import MsysGit.Connect.RetryBound
import MsysGit.Connect.Authorization
import MsysGit.Connect.Delivery
import MsysGit.WinGit.Environment
import MsysGit.WinGit.NamedVariables
import MsysGit.WinGit.Install
import MsysGit.WinGit.SearchPath
import MsysGit.WinGit.VariableView
import MsysGit.WinGit.PathSpelling
import MsysGit.WinGit.Ownership
import MsysGit.WinGit.BashOnly
import MsysGit.WinGit.ModuleUsers
import MsysGit.WinGit.ProcessesPage
import MsysGit.WinGit.BuiltIns
import MsysGit.WinGit.ContextMenu
import MsysGit.WinGit.FileDescription
import MsysGit.WinGit.ReplaceInUse
import MsysGit.WinGit.DirWritable
import MsysGit.MergingRebase.History
import MsysGit.MergingRebase.BaseSelection
import MsysGit.MergingRebase.EditScript
import MsysGit.ReleaseScripts.InstallCommit
import MsysGit.ReleaseScripts.Entities
import MsysGit.ReleaseScripts.ReleaseTag
import MsysGit.PostCheckout.ModifiedFiles
import MsysGit.Library.QuotedArguments
import MsysGit.Library.ArgumentQuoting
import MsysGit.CcacheWin32.Execute
import MsysGit.CreateShortcut.Options
import MsysGit.GitWrapper.CommandLine
import MsysGit.GitWrapper.HomeDirectory
import MsysGit.GitWrapper.PathVariable
import MsysGit.GitWrapper.CommandBuffer
import MsysGit.UploadToGithub.Options
import MsysGit.Library.WordExpansion
import MsysGit.EtcProfile.CygwinPath
import MsysGit.Connect.Base64String
import MsysGit.Connect.RequestText
import MsysGit.Connect.Redirect
import MsysGit.Connect.Challenges
import MsysGit.Connect.AddrPairText
import MsysGit.Connect.ExpandCommand
import MsysGit.Connect.Arguments
import MsysGit.Connect.AuthMethods
import MsysGit.Connect.Ports
import MsysGit.Connect.ProgramName
import MsysGit.Connect.TelnetRelay
import MsysGit.Depends.SearchList
import MsysGit.Depends.Image
import MsysGit.Depends.ImportSearch
import MsysGit.Library.ShortLoop
import MsysGit.Depends.ExportSearch
import MsysGit.Depends.Mappings
import MsysGit.Depends.Directory
import MsysGit.Depends.ExportTree
import MsysGit.WinGit.IdLists
import MsysGit.Connect.CutToken
import MsysGit.RebasingMerge.Script
import MsysGit.RebasingMerge.Series
import MsysGit.RebasingMerge.Picks
import MsysGit.Connect.Tunnel
import MsysGit.Connect.HeldSessions
import MsysGit.Library.LastRead
import MsysGit.WhoUses.FileNames
import MsysGit.WhoUses.Handles
import MsysGit.WhoUses.Main
import MsysGit.RunTests.Monitor
import MsysGit.WinGit.MenuLifecycle
import MsysGit.Depends.Closing
import MsysGit.Depends.SearchMemory
import MsysGit.WinGit.Choices
import MsysGit.WinGit.Upgrades
