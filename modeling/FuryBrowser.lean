import FuryBrowser.AccessTaken
import FuryBrowser.AddressBlocks
import FuryBrowser.AgentDisk
import FuryBrowser.AgentExit
import FuryBrowser.AgentRuns
import FuryBrowser.AllowList
import FuryBrowser.ApiGate
import FuryBrowser.Base32Exact
import FuryBrowser.Base64Url
import FuryBrowser.BitGroups
import FuryBrowser.BoundedBuffer
import FuryBrowser.BrowserExclusion
import FuryBrowser.BrowserLocks
import FuryBrowser.BundleAuthentic
import FuryBrowser.BundlePack
import FuryBrowser.BundleRoundTrip
import FuryBrowser.BundleUnpack
import FuryBrowser.ByteFields
import FuryBrowser.CanvasAgree
import FuryBrowser.CanvasDraws
import FuryBrowser.CanvasExact
import FuryBrowser.CanvasReads
import FuryBrowser.CanvasScenes
import FuryBrowser.CeilingKept
import FuryBrowser.CellFolds
import FuryBrowser.ChallengeBound
import FuryBrowser.ConnectAuthority
import FuryBrowser.CookieKeyGuard
import FuryBrowser.CoreConfig
import FuryBrowser.CoreConfigAccepted
import FuryBrowser.CoreInstall
import FuryBrowser.DomainLists
import FuryBrowser.DomainMatching
import FuryBrowser.EdgeNoise
import FuryBrowser.EmailConfirmed
import FuryBrowser.ExitRecords
import FuryBrowser.ExitReuse
import FuryBrowser.FarmDays
import FuryBrowser.FarmFile
import FuryBrowser.FarmHours
import FuryBrowser.FarmPlans
import FuryBrowser.FarmReports
import FuryBrowser.FarmRuns
import FuryBrowser.FarmSafety
import FuryBrowser.FarmTracks
import FuryBrowser.GuardedRuns
import FuryBrowser.HeldVersion
import FuryBrowser.HexExact
import FuryBrowser.HostMask
import FuryBrowser.HostsMasked
import FuryBrowser.ImportCopies
import FuryBrowser.ImportStages
import FuryBrowser.InFlight
import FuryBrowser.InvitedEmail
import FuryBrowser.IpAddress
import FuryBrowser.JsonTree
import FuryBrowser.KeyAdmission
import FuryBrowser.KeyForward
import FuryBrowser.KeyRotation
import FuryBrowser.KeyWithSession
import FuryBrowser.LaunchArguments
import FuryBrowser.LaunchLocks
import FuryBrowser.LaunchPull
import FuryBrowser.LinkTree
import FuryBrowser.LinkedGrants
import FuryBrowser.ListMerging
import FuryBrowser.LocalNetworks
import FuryBrowser.LocalPurge
import FuryBrowser.LocalStore
import FuryBrowser.LockHolder
import FuryBrowser.LockSafety
import FuryBrowser.LoginEdits
import FuryBrowser.Machines
import FuryBrowser.MarkedContents
import FuryBrowser.MemberRemoved
import FuryBrowser.MirrorHub
import FuryBrowser.MirrorMembers
import FuryBrowser.MirrorOrder
import FuryBrowser.NoisedEdges
import FuryBrowser.OpenProfiles
import FuryBrowser.OptionList
import FuryBrowser.OrgKeys
import FuryBrowser.OrgOwner
import FuryBrowser.OverrideEdits
import FuryBrowser.OwnAccess
import FuryBrowser.OwnRows
import FuryBrowser.PastedText
import FuryBrowser.Permissions
import FuryBrowser.Personas
import FuryBrowser.PinnedMachines
import FuryBrowser.ProfileCeiling
import FuryBrowser.ProfileHomes
import FuryBrowser.ProfileRequests
import FuryBrowser.ProfileRuns
import FuryBrowser.ProfileShares
import FuryBrowser.ProfileUpload
import FuryBrowser.ProfileUsage
import FuryBrowser.ProfilesStay
import FuryBrowser.ProgramRules
import FuryBrowser.ProjectTransfer
import FuryBrowser.ProxyEdits
import FuryBrowser.ProxyLines
import FuryBrowser.ProxyList
import FuryBrowser.ProxyListings
import FuryBrowser.ProxySaves
import FuryBrowser.ProxyShapes
import FuryBrowser.ProxyUrlLines
import FuryBrowser.ProxyUrls
import FuryBrowser.PullExact
import FuryBrowser.RecordedBytes
import FuryBrowser.RelayForward
import FuryBrowser.RelayHeads
import FuryBrowser.RelayKeepAlive
import FuryBrowser.RelayLeaks
import FuryBrowser.RelayServing
import FuryBrowser.RelayStreams
import FuryBrowser.RelayTunnel
import FuryBrowser.RestrictionsReach
import FuryBrowser.RotationAnswered
import FuryBrowser.RotationComplete
import FuryBrowser.RotationMaterial
import FuryBrowser.RotationReadable
import FuryBrowser.SecretsKept
import FuryBrowser.SeedStreams
import FuryBrowser.SessionKept
import FuryBrowser.SessionRevoke
import FuryBrowser.SessionRuns
import FuryBrowser.SessionSteps
import FuryBrowser.SessionTokens
import FuryBrowser.SharedOpening
import FuryBrowser.SharedTunnels
import FuryBrowser.ShellKeys
import FuryBrowser.SignIn
import FuryBrowser.SignInPolicy
import FuryBrowser.SlotOnDisk
import FuryBrowser.SocksEncoding
import FuryBrowser.SocksWire
import FuryBrowser.StandingMachines
import FuryBrowser.StopCommand
import FuryBrowser.StorageCeiling
import FuryBrowser.StoreMigration
import FuryBrowser.SynLayout
import FuryBrowser.SynPackets
import FuryBrowser.SynSegments
import FuryBrowser.SynShape
import FuryBrowser.SynTransparent
import FuryBrowser.TextBytes
import FuryBrowser.TextCuts
import FuryBrowser.TextFields
import FuryBrowser.TextLines
import FuryBrowser.TextReading
import FuryBrowser.TextSlices
import FuryBrowser.TokenReads
import FuryBrowser.Totp
import FuryBrowser.TotpCodes
import FuryBrowser.TotpCoding
import FuryBrowser.TotpRoundTrip
import FuryBrowser.TouchEmulator
import FuryBrowser.TouchGestures
import FuryBrowser.TrashOnly
import FuryBrowser.TrimmedCaches
import FuryBrowser.TunnelPump
import FuryBrowser.TunnelTask
import FuryBrowser.UiLocales
import FuryBrowser.UnpackContained
import FuryBrowser.UpdateSafety
import FuryBrowser.UploadCarries
import FuryBrowser.VaultKey
import FuryBrowser.VendorProxies
